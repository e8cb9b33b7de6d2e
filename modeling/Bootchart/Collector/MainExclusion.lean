import Bootchart.Collector.Main

/-!
# At most one collector

The search of `bootchart_find_running_pid` keeps collectors apart, as every process appears in
the directory before it searches it. This rests on what a searcher reads of the other's command
line: whether it only sleeps.
-/

namespace Bootchart
namespace Collector

open Library (Text Phase run run_induction)

/-- Others read of the command line what the process itself has read, and the time to sleep is
not negative. -/
structure Plain (words : List Text) : Prop where
  /-- The command line is read whole. -/
  readable : Readable words
  /-- A negative time is no time to sleep for the process, but it is one for the others. -/
  nonneg : ∀ args, ownArguments words = some args → 0 ≤ args.usleepTime

/-- A command line is plain if it is short, and its time to sleep is not negative. -/
theorem plain_of_all {words : List Text}
    (readable : Readable words)
    (nonneg : (ownArguments words).all (0 ≤ ·.usleepTime) = true) :
    Plain words where
  readable := readable
  nonneg := by
    intro args isOwn
    rw [isOwn] at nonneg
    exact of_decide_eq_true nonneg

/-- A process is in its search. -/
def Stage.searches : Stage → Bool
  | .searching _ _ => true
  | _ => false

/-- The search of a process has found nobody, and it has not ended since. -/
def Stage.FoundNobody : Stage → Prop
  | .alone _ => True
  | .collecting _ => True
  | _ => False

/-- Those that have found nobody exclude each other. -/
theorem Stage.foundNobody_iff {stage : Stage} : stage.FoundNobody ↔ stage.phase = .inside := by
  cases stage with
  | alone args => exact iff_of_true trivial rfl
  | collecting args => exact iff_of_true trivial rfl
  | _ => exact iff_of_false id (by simp [phase])

namespace System

variable {program : Text} {system next : System} {proc : Proc} {running : Running} {action : Move}
  {before after : Stage} {mounted : Bool}

/-! ## What the moves do -/

/-- What the moves do, each with what has to hold for it. -/
inductive Moved (program : Text) (system : System) (running : Running) :
    Stage → Move → Stage → Bool → Prop
  /-- The arguments are wrong. -/
  | usage : Moved program system running .starting .parse .exited system.mounted
  /-- The process is to sleep. -/
  | slept : Moved program system running .starting .parse .sleeping system.mounted
  /-- The arguments are parsed. -/
  | parsed (args : Arguments)
      (isOwn : ownArguments running.words = some args)
      (awake : args.usleepTime ≤ 0) :
      Moved program system running .starting .parse (.entering args) system.mounted
  /-- The sleep is over. -/
  | woken : Moved program system running .sleeping .wake .exited system.mounted
  /-- The file systems are mounted. -/
  | entered (args : Arguments) :
      Moved program system running (.entering args) (.enter true) (.entered args) true
  /-- They are not. -/
  | failed (args : Arguments) :
      Moved program system running (.entering args) (.enter false) .exited system.mounted
  /-- The initrd has no use for a collector. -/
  | refused (args : Arguments) :
      Moved program system running (.entered args) (.check true) (.leaving true) system.mounted
  /-- There is nothing against a search. -/
  | checked (args : Arguments) (refused : Bool) :
      Moved program system running (.entered args) (.check refused) (.ready args) system.mounted
  /-- The search begins. -/
  | opened (args : Arguments) :
      Moved program system running (.ready args) .opendir (.searching args system.present)
        system.mounted
  /-- There is no directory. -/
  | crashed (args : Arguments) :
      Moved program system running (.ready args) .opendir .exited system.mounted
  /-- A process is gone or cannot be read, or it is not what is searched for. -/
  | passed (args : Arguments) (unseen : List Nat) (index : Nat) (other : Proc)
      (isOther : system.procs[index]? = some other)
      (skipped : other.stage ≠ .exited → system.mounted = true → ∃ remote,
        examine program running.pid argumentsSetDefaults other.running.entry =
          some (none, remote)) :
      Moved program system running (.searching args unseen) (.readdir index)
        (.searching args (unseen.filter (· ≠ index))) system.mounted
  /-- The arguments of a process are wrong. -/
  | usageOf (args : Arguments) (unseen : List Nat) (index : Nat) :
      Moved program system running (.searching args unseen) (.readdir index) .exited
        system.mounted
  /-- A process is found. -/
  | found (args : Arguments) (unseen : List Nat) (index : Nat)
      (noPath : args.dumpPath.isSome = false) :
      Moved program system running (.searching args unseen) (.readdir index) (.leaving false)
        system.mounted
  /-- A dumper has found a process. -/
  | foundToDump (args : Arguments) (unseen : List Nat) (index : Nat) (pid : Pid)
      (path : args.dumpPath.isSome = true) :
      Moved program system running (.searching args unseen) (.readdir index) (.dumping args pid)
        system.mounted
  /-- Nobody is found. -/
  | foundNobody (args : Arguments) (unseen : List Nat)
      (gone : unseen.all system.isGone = true)
      (noPath : args.dumpPath.isSome = false) :
      Moved program system running (.searching args unseen) .enddir (.alone args) system.mounted
  /-- A dumper has found nobody. -/
  | nothingToDump (args : Arguments) (unseen : List Nat)
      (path : args.dumpPath.isSome = true) :
      Moved program system running (.searching args unseen) .enddir (.leaving true)
        system.mounted
  /-- The buffers are dumped. -/
  | extracted (args : Arguments) (pid : Pid) :
      Moved program system running (.dumping args pid) .extract (.leaving true) system.mounted
  /-- A probe cleans up. -/
  | probed (args : Arguments) (opened : Bool) :
      Moved program system running (.alone args) (.proceed opened) .exited false
  /-- The files below `/proc` are open. -/
  | began (args : Arguments) (opened : Bool)
      (isMounted : system.mounted = true) :
      Moved program system running (.alone args) (.proceed opened) (.collecting args)
        system.mounted
  /-- The files below `/proc` cannot be opened. -/
  | stuck (args : Arguments) (opened : Bool) :
      Moved program system running (.alone args) (.proceed opened) .exited system.mounted
  /-- A process leaves at `exit`. -/
  | left (cleanEnvironment : Bool) :
      Moved program system running (.leaving cleanEnvironment) .leave .exited
        (!cleanEnvironment && system.mounted)
  /-- A process is terminated and cleans up. -/
  | terminated (before : Stage) (there : before ≠ .exited) :
      Moved program system running before .term .exited false
  /-- A process ends. -/
  | died (before : Stage) (there : before ≠ .exited) :
      Moved program system running before .die .exited system.mounted

/-- What the moves do. -/
theorem moved_of_move (moved : system.move program proc action = some (after, mounted)) :
    Moved program system proc.running proc.stage action after mounted := by
  cases action with
  | parse =>
      simp only [move] at moved
      split at moved
      next starting =>
        rw [starting]
        split at moved
        · cases moved
          exact .usage
        next args isOwn =>
          cases moved
          split
          · exact .slept
          next awake => exact .parsed args isOwn (not_lt.mp awake)
      next => cases moved
  | wake =>
      simp only [move] at moved
      split at moved
      next sleeping =>
        cases moved
        rw [sleeping]
        exact .woken
      next => cases moved
  | enter succeeds =>
      simp only [move] at moved
      split at moved
      next args entering =>
        rw [entering]
        cases succeeds with
        | false =>
            cases moved
            exact .failed args
        | true =>
            cases moved
            exact .entered args
      next => cases moved
  | check refused =>
      simp only [move] at moved
      split at moved
      next args entered =>
        cases moved
        rw [entered]
        split
        next fails =>
          rw [Bool.and_eq_true] at fails
          rw [fails.2]
          exact .refused args
        next => exact .checked args refused
      next => cases moved
  | opendir =>
      simp only [move] at moved
      split at moved
      next args ready =>
        cases moved
        rw [ready]
        split
        · exact .opened args
        · exact .crashed args
      next => cases moved
  | readdir index =>
      simp only [move, Stage.searched] at moved
      split at moved
      next args unseen other searches isOther =>
        rw [searches]
        split at moved
        next =>
          cases moved
          exact .usageOf args unseen index
        next pid _ _ =>
          cases moved
          split
          next path => exact .foundToDump args unseen index pid path
          next noPath => exact .found args unseen index (Bool.eq_false_iff.mpr noPath)
        next remote skipped =>
          cases moved
          refine .passed args unseen index other isOther fun there isMounted => ⟨remote, ?_⟩
          rwa [shown, if_neg (by simp [there, isMounted])] at skipped
      next => cases moved
  | enddir =>
      simp only [move, Stage.searched] at moved
      split at moved
      next args unseen searches =>
        rw [searches]
        split at moved
        next gone =>
          cases moved
          split
          next path => exact .nothingToDump args unseen path
          next noPath => exact .foundNobody args unseen gone (Bool.eq_false_iff.mpr noPath)
        next => cases moved
      next => cases moved
  | extract =>
      simp only [move] at moved
      split at moved
      next args pid dumping =>
        cases moved
        rw [dumping]
        exact .extracted args pid
      next => cases moved
  | proceed opened =>
      simp only [move] at moved
      split at moved
      next args isAlone =>
        rw [isAlone]
        split at moved
        · cases moved
          exact .probed args opened
        · cases moved
          split
          next both => exact .began args opened (Bool.and_eq_true_iff.mp both).1
          next => exact .stuck args opened
      next => cases moved
  | leave =>
      simp only [move] at moved
      split at moved
      next clean leaving =>
        cases moved
        rw [leaving]
        exact .left clean
      next => cases moved
  | term =>
      simp only [move] at moved
      split at moved
      any_goals cases moved
      next notExited =>
        exact .terminated proc.stage notExited
  | die =>
      simp only [move] at moved
      split at moved
      · cases moved
      next there =>
        cases moved
        exact .died proc.stage there

/-- A process that is gone does not move. -/
theorem Moved.there (moved : Moved program system running before action after mounted) :
    before ≠ .exited := by
  cases moved with
  | terminated _ there => exact there
  | died _ there => exact there
  | _ => simp

/-- A move keeps the arguments, or has just parsed them. -/
theorem Moved.args
    (moved : Moved program system running before action after mounted)
    {args : Arguments}
    (has : after.args? = some args) :
    before.args? = some args ∨ (ownArguments running.words = some args ∧ args.usleepTime ≤ 0) := by
  cases moved with
  | parsed own isOwn awake =>
      obtain rfl := Option.some.inj has
      exact Or.inr ⟨isOwn, awake⟩
  | _ =>
      first
        | exact Or.inl has
        | cases has

/-- The file systems are unmounted by a probe that has found nobody, by cleaning up at `exit`, and
by `SIGTERM`. -/
theorem Moved.unmounted
    (moved : Moved program system running before action after false)
    (wasMounted : system.mounted = true) :
    (∃ args, before = .alone args) ∨ before = .leaving true ∨ action = .term := by
  generalize isUnmounted : false = mounted at moved
  cases moved with
  | probed args => exact Or.inl ⟨args, rfl⟩
  | left clean =>
      cases clean with
      | true => exact Or.inr (Or.inl rfl)
      | false =>
          rw [wasMounted] at isUnmounted
          cases isUnmounted
  | terminated => exact Or.inr (Or.inr rfl)
  | _ =>
      first
        | cases isUnmounted
        | rw [wasMounted] at isUnmounted
          cases isUnmounted

/-- Whoever begins to collect has opened files below the mounted `/proc`. -/
theorem Moved.isMounted
    {args : Arguments}
    (moved : Moved program system running before action (.collecting args) mounted) :
    mounted = true := by
  cases moved with
  | began _ _ isMounted => exact isMounted

/-- Only dumpers and those that an initrd refuses get to clean up at `exit`. -/
theorem Moved.cleans
    (moved : Moved program system running before action after mounted)
    (cleans : after = .leaving true ∨ ∃ args pid, after = .dumping args pid) :
    action = .check true ∨ (∃ args pid, before = .dumping args pid) ∨
      ∃ args, before.args? = some args ∧ args.dumpPath.isSome = true := by
  cases moved with
  | refused => exact Or.inl rfl
  | extracted args pid => exact Or.inr (Or.inl ⟨args, pid, rfl⟩)
  | foundToDump args _ _ _ path => exact Or.inr (Or.inr ⟨args, rfl, path⟩)
  | nothingToDump args _ path => exact Or.inr (Or.inr ⟨args, rfl, path⟩)
  | _ => simp at cleans

/-! ## What holds of all processes -/

/-- What holds of all processes that were started. -/
structure Sound (program : Text) (system : System) : Prop where
  /-- They run the collector. -/
  recognised : ∀ proc ∈ system.procs, isCollector program proc.running.exe = true
  /-- Others read what they have read. -/
  plain : ∀ proc ∈ system.procs, Plain proc.running.words
  /-- No two that are there share a pid. -/
  apart : ∀ (i j : Nat) (first second : Proc), system.procs[i]? = some first → system.procs[j]? = some second →
    first.stage ≠ .exited → second.stage ≠ .exited →
    first.running.pid = second.running.pid → i = j
  /-- They have the arguments that they have parsed, and do not sleep. -/
  parsed : ∀ proc ∈ system.procs, ∀ args, proc.stage.args? = some args →
    ownArguments proc.running.words = some args ∧ args.usleepTime ≤ 0

/-- In the beginning nobody is there. -/
theorem sound_init (program : Text) : Sound program init where
  recognised := List.forall_mem_nil _
  plain := List.forall_mem_nil _
  apart := by
    intro i _ _ _ isFirst
    rw [init, List.getElem?_nil] at isFirst
    cases isFirst
  parsed := List.forall_mem_nil _

/-- A started process is one of many. -/
theorem Sound.start
    (sound : Sound program system)
    {running : Running}
    (plain : Plain running.words)
    (started : system.step program (.start running) = some next) :
    Sound program next := by
  rw [step] at started
  split at started
  next accepted =>
    obtain rfl := Option.some.inj started
    obtain ⟨recognised, fresh⟩ := accepted
    refine ⟨?_, ?_, ?_, ?_⟩
    · intro proc member
      rcases List.mem_append.mp member with before | new
      · exact sound.recognised proc before
      · rw [List.mem_singleton.mp new]
        exact recognised
    · intro proc member
      rcases List.mem_append.mp member with before | new
      · exact sound.plain proc before
      · rw [List.mem_singleton.mp new]
        exact plain
    · intro i j first second isFirst isSecond firstThere secondThere samePid
      simp only [List.getElem?_append] at isFirst isSecond
      split at isFirst
      next before =>
        split at isSecond
        next => exact sound.apart i j first second isFirst isSecond firstThere secondThere samePid
        next =>
          rw [List.getElem?_singleton] at isSecond
          split at isSecond
          · obtain rfl := Option.some.inj isSecond
            exact absurd samePid (fresh first (List.mem_of_getElem? isFirst) firstThere)
          · cases isSecond
      next behind =>
        rw [List.getElem?_singleton] at isFirst
        split at isFirst
        next last =>
          obtain rfl := Option.some.inj isFirst
          split at isSecond
          next =>
            exact absurd samePid.symm
              (fresh second (List.mem_of_getElem? isSecond) secondThere)
          next =>
            rw [List.getElem?_singleton] at isSecond
            split at isSecond
            · omega
            · cases isSecond
        next => cases isFirst
    · intro proc member args has
      rcases List.mem_append.mp member with before | new
      · exact sound.parsed proc before args has
      · rw [List.mem_singleton.mp new] at has
        cases has
  next => cases started

/-- The processes after a move. -/
theorem exists_of_step {index : Nat}
    (stepped : system.step program (.move index action) = some next) :
    ∃ proc stage mounted, system.procs[index]? = some proc ∧
      Moved program system proc.running proc.stage action stage mounted ∧
      next = { procs := system.procs.set index { proc with stage := stage }, mounted := mounted } := by
  rw [step, Option.bind_eq_some_iff] at stepped
  obtain ⟨proc, isProc, stepped⟩ := stepped
  rw [Option.map_eq_some_iff] at stepped
  obtain ⟨⟨stage, mounted⟩, moved, rfl⟩ := stepped
  exact ⟨proc, stage, mounted, isProc, moved_of_move moved, rfl⟩

/-- A process after a move is the one that moved, or one of the others. -/
theorem getElem?_set_cases {procs : List Proc} {index : Nat} {moved : Proc} {i : Nat} {proc : Proc}
    (isProc : (procs.set index moved)[i]? = some proc) :
    (i = index ∧ proc = moved) ∨ (i ≠ index ∧ procs[i]? = some proc) := by
  rw [List.getElem?_set] at isProc
  split at isProc
  next same =>
    split at isProc
    · exact Or.inl ⟨same.symm, (Option.some.inj isProc).symm⟩
    · cases isProc
  next other => exact Or.inr ⟨Ne.symm other, isProc⟩

/-- A move keeps what holds of all processes. -/
theorem Sound.move {index : Nat}
    (sound : Sound program system)
    (stepped : system.step program (.move index action) = some next) :
    Sound program next := by
  obtain ⟨proc, stage, mounted, isProc, moved, rfl⟩ := exists_of_step stepped
  have member := List.mem_of_getElem? isProc
  have there := moved.there
  -- Only the stage of the process changes.
  have before : ∀ (i : Nat) (other : Proc),
      (system.procs.set index { proc with stage := stage })[i]? = some other →
      ∃ was, system.procs[i]? = some was ∧ was.running = other.running ∧
        (other.stage ≠ .exited → was.stage ≠ .exited) := by
    intro i other isOther
    rcases getElem?_set_cases isOther with ⟨rfl, rfl⟩ | ⟨-, same⟩
    · exact ⟨proc, isProc, rfl, fun _ => there⟩
    · exact ⟨other, same, rfl, id⟩
  refine ⟨?_, ?_, ?_, ?_⟩
  · intro other isMember
    obtain ⟨i, isOther⟩ := List.getElem?_of_mem isMember
    obtain ⟨was, isWas, same, -⟩ := before i other isOther
    rw [← same]
    exact sound.recognised was (List.mem_of_getElem? isWas)
  · intro other isMember
    obtain ⟨i, isOther⟩ := List.getElem?_of_mem isMember
    obtain ⟨was, isWas, same, -⟩ := before i other isOther
    rw [← same]
    exact sound.plain was (List.mem_of_getElem? isWas)
  · intro i j first second isFirst isSecond firstThere secondThere samePid
    obtain ⟨firstWas, isFirstWas, sameFirst, firstWasThere⟩ := before i first isFirst
    obtain ⟨secondWas, isSecondWas, sameSecond, secondWasThere⟩ := before j second isSecond
    apply sound.apart i j firstWas secondWas isFirstWas isSecondWas (firstWasThere firstThere)
      (secondWasThere secondThere)
    rw [sameFirst, sameSecond]
    exact samePid
  · intro other isMember args has
    obtain ⟨i, isOther⟩ := List.getElem?_of_mem isMember
    rcases getElem?_set_cases isOther with ⟨rfl, rfl⟩ | ⟨-, same⟩
    · rcases moved.args has with had | now
      · exact sound.parsed proc member args had
      · exact now
    · exact sound.parsed other (List.mem_of_getElem? same) args has

/-! ## Exclusion -/

/-- What the processes have to do with each other. -/
def phases (system : System) (index : Nat) : Phase Nat :=
  match system.procs[index]? with
  | some proc => proc.stage.phase
  | none => .away

/-- The phase of a process. -/
theorem phases_eq {index : Nat} (isProc : system.procs[index]? = some proc) :
    system.phases index = proc.stage.phase := by
  rw [phases, isProc]

/-- The phases after a move. -/
theorem phases_set {index : Nat} (isProc : system.procs[index]? = some proc) (stage : Stage)
    (mounted : Bool) :
    phases { procs := system.procs.set index { proc with stage := stage }, mounted := mounted } =
      Function.update system.phases index stage.phase := by
  have bound := (List.getElem?_eq_some_iff.mp isProc).1
  funext i
  rcases eq_or_ne i index with rfl | other
  · rw [Function.update_self, phases, List.getElem?_set_self bound]
  · rw [Function.update_of_ne other, phases, List.getElem?_set_ne (Ne.symm other), phases]

/-- The phases after a start. -/
theorem phases_start {running : Running}
    (started : system.step program (.start running) = some next) :
    next.phases = system.phases := by
  rw [step] at started
  split at started
  next =>
    obtain rfl := Option.some.inj started
    funext i
    rw [phases, phases]
    rcases lt_or_ge i system.procs.length with before | behind
    · rw [List.getElem?_append_left before]
    · rw [List.getElem?_append_right behind, List.getElem?_eq_none behind]
      cases i - system.procs.length with
      | zero => rfl
      | succ more => rfl
  next => cases started

/-- Whoever is gone is away. -/
theorem phases_of_isGone {index : Nat} (gone : system.isGone index = true) :
    system.phases index = .away := by
  rw [isGone] at gone
  rw [phases]
  split
  next proc isProc =>
    rw [isProc] at gone
    rw [of_decide_eq_true gone]
    rfl
  next => rfl

/-- Whoever is not away is there. -/
theorem mem_present {index : Nat} (there : system.phases index ≠ .away) :
    index ∈ system.present := by
  have notGone : system.isGone index = false := by
    rw [← Bool.not_eq_true]
    exact fun gone => there (phases_of_isGone gone)
  refine List.mem_filter.mpr ⟨?_, by rw [notGone]; rfl⟩
  rw [List.mem_range]
  by_contra outside
  rw [phases, List.getElem?_eq_none (not_lt.mp outside)] at there
  exact there rfl

/-- Whoever searches has arguments. -/
theorem exists_args_of_phase {stage : Stage} (there : stage.phase ≠ .away) :
    ∃ args, stage.args? = some args := by
  cases stage with
  | searching args unseen => exact ⟨args, rfl⟩
  | alone args => exact ⟨args, rfl⟩
  | collecting args => exact ⟨args, rfl⟩
  | _ => exact absurd rfl there

/-- Another collector is not passed over while it is there. -/
theorem Sound.examine_ne
    (sound : Sound program system)
    {i j : Nat}
    {other : Proc}
    (isProc : system.procs[i]? = some proc)
    (isOther : system.procs[j]? = some other)
    (different : j ≠ i)
    (procThere : proc.stage ≠ .exited)
    (otherThere : other.stage.phase ≠ .away)
    (remote : Arguments) :
    examine program proc.running.pid argumentsSetDefaults other.running.entry ≠
      some (none, remote) := by
  have member := List.mem_of_getElem? isOther
  obtain ⟨args, has⟩ := exists_args_of_phase otherThere
  obtain ⟨isOwn, notPositive⟩ := sound.parsed other member args has
  have plain := sound.plain other member
  have awake : args.usleepTime = 0 := le_antisymm notPositive (plain.nonneg args isOwn)
  have notGone : other.stage ≠ .exited := by
    intro gone
    rw [gone] at otherThere
    exact otherThere rfl
  have differs : other.running.IsOther program proc.running.pid := by
    refine ⟨sound.recognised other member, ?_⟩
    intro samePid
    exact different
      (sound.apart j i other proc isOther isProc notGone procThere (Int.ofNat.inj samePid))
  rw [Running.examine_entry, if_pos differs,
    remoteArguments_of_readable _ other.running.named other.running.endless plain.readable, isOwn,
    Option.map_some, if_neg (not_not.mpr awake)]
  simp

/-- If a process is in its search, the file systems are mounted. -/
def Visible (system : System) : Prop :=
  system.procs.any (·.stage.searches) = true → system.mounted = true

instance : DecidablePred Visible :=
  fun _ => inferInstanceAs (Decidable (_ → _))

/-- A move is a step of processes that appear before they look, as long as they can see each
other. -/
theorem phases_move {index : Nat}
    (sound : Sound program system)
    (visible : system.Visible)
    (stepped : system.step program (.move index action) = some next) :
    next.phases = system.phases ∨ Phase.Step system.phases next.phases := by
  obtain ⟨proc, stage, mounted, isProc, moved, rfl⟩ := exists_of_step stepped
  have isPhase := phases_eq isProc
  have there := moved.there
  rw [phases_set isProc]
  generalize isBefore : proc.stage = before at moved isPhase there
  cases moved with
  | opened args => exact Or.inr (.look index _ fun j _ isThere => mem_present isThere)
  | passed args unseen j other isOther skipped =>
      right
      have rest : {i | i ∈ unseen.filter (· ≠ j)} = {i | i ∈ unseen} \ {j} := by
        ext i
        simp
      rw [Stage.phase, rest]
      refine Phase.Step.pass index j _ isPhase ?_
      intro different
      by_contra isThere
      rw [phases_eq isOther] at isThere
      have notGone : other.stage ≠ .exited := by
        intro gone
        rw [gone] at isThere
        exact isThere rfl
      have searches : system.procs.any (·.stage.searches) = true :=
        List.any_eq_true.mpr ⟨proc, List.mem_of_getElem? isProc, by rw [isBefore]; rfl⟩
      obtain ⟨remote, isSkipped⟩ := skipped notGone (visible searches)
      exact sound.examine_ne isProc isOther different (isBefore ▸ there) isThere remote isSkipped
  | foundNobody args unseen gone =>
      right
      refine Phase.Step.enter index _ isPhase ?_
      intro j isUnseen _
      exact phases_of_isGone (List.all_eq_true.mp gone j isUnseen)
  | began args opened =>
      left
      have same : (Stage.collecting args).phase = system.phases index := isPhase.symm
      rw [same, Function.update_eq_self]
  | _ => exact Or.inr (.leave index)

/-- The processes that are started have plain command lines. -/
def AllPlain (events : List Event) : Prop :=
  ∀ running, .start running ∈ events → Plain running.words

/-- Whenever a process is in its search, the file systems are mounted. -/
def AllVisible (program : Text) (events : List Event) : Prop :=
  ∀ done, done <+: events → ∀ system, run (System.step program) init done = some system →
    system.Visible

/-- This can be computed. -/
theorem allVisible_of_inits {events : List Event}
    (visible : (events.inits.all fun done =>
      (run (System.step program) init done).all (decide ·.Visible)) = true) :
    AllVisible program events := by
  intro done isPrefix system ran
  have isVisible := List.all_eq_true.mp visible done ((List.mem_inits _ _).mpr isPrefix)
  rw [ran] at isVisible
  exact of_decide_eq_true isVisible

/-- What holds after every run. -/
theorem sound_run {events : List Event} {finish : System}
    (plain : AllPlain events)
    (visible : AllVisible program events)
    (ran : run (System.step program) init events = some finish) :
    Sound program finish ∧ Phase.Exclusive finish.phases := by
  have kept := run_induction
    (fun done state => done <+: events → Sound program state ∧ Phase.Exclusive state.phases)
    (fun _ => ⟨sound_init program, .of_away fun _ => rfl⟩)
    (by
      intro done state event next ranDone holds stepped isPrefix
      have before := (List.prefix_append done [event]).trans isPrefix
      obtain ⟨sound, exclusive⟩ := holds before
      cases event with
      | start running =>
          have isPlain := plain running (isPrefix.subset (List.mem_append_right _ (by simp)))
          refine ⟨sound.start isPlain stepped, ?_⟩
          rw [phases_start stepped]
          exact exclusive
      | move index action =>
          refine ⟨sound.move stepped, ?_⟩
          rcases phases_move sound (visible done before state ranDone) stepped with same | isStep
          · rw [same]
            exact exclusive
          · exact exclusive.step isStep)
    ran
  exact kept (List.prefix_refl events)

/-- Of the processes whose search has found nobody, be they collectors or probes that clean up,
there is at most one at any time, if nothing is unmounted while a process is in its search. -/
theorem alone_of_run {events : List Event} {finish : System}
    (plain : AllPlain events)
    (visible : AllVisible program events)
    (ran : run (System.step program) init events = some finish)
    {i j : Nat}
    {first second : Proc}
    (isFirst : finish.procs[i]? = some first)
    (isSecond : finish.procs[j]? = some second)
    (firstAlone : first.stage.FoundNobody)
    (secondAlone : second.stage.FoundNobody) :
    i = j := by
  apply (sound_run plain visible ran).2.alone
  · rw [phases_eq isFirst]
    exact Stage.foundNobody_iff.mp firstAlone
  · rw [phases_eq isSecond]
    exact Stage.foundNobody_iff.mp secondAlone

/-- Two collectors are started; the second meets the first. -/
def twoStarts : List Event :=
  [.start (samplingCollector 7), .move 0 .parse, .move 0 (.enter true), .move 0 (.check false),
    .move 0 .opendir, .start (samplingCollector 8), .move 1 .parse, .move 1 (.enter true),
    .move 1 (.check false), .move 1 .opendir, .move 0 (.readdir 0), .move 0 .enddir,
    .move 0 (.proceed true), .move 1 (.readdir 0), .move 1 .leave]

/-- Their command lines are plain. -/
theorem allPlain_twoStarts : AllPlain twoStarts := by
  have plain : Plain (samplingCollector 0).words :=
    plain_of_all (by decide +kernel) (by decide +kernel)
  intro running member
  simp only [twoStarts, List.mem_cons, reduceCtorEq, Event.start.injEq, false_or, or_false,
    List.not_mem_nil] at member
  rcases member with rfl | rfl
  · exact plain
  · exact plain

/-- Nothing is unmounted. -/
theorem allVisible_twoStarts : AllVisible collectorName twoStarts :=
  allVisible_of_inits (by decide +kernel)

theorem alone_of_twoStarts :
    ∃ finish first, run (System.step collectorName) init twoStarts = some finish ∧
      finish.procs[0]? = some first ∧ first.stage.FoundNobody ∧
      ∀ i second, finish.procs[i]? = some second → second.stage.FoundNobody → 0 = i := by
  obtain ⟨finish, ran⟩ := Option.isSome_iff_exists.mp
    (show (run (System.step collectorName) init twoStarts).isSome = true by decide +kernel)
  have collects : ((run (System.step collectorName) init twoStarts).bind fun system =>
      system.procs[0]?.map (·.stage)) = some (.collecting { argumentsSetDefaults with hz := 50 }) := by
    decide +kernel
  rw [ran, Option.bind_some, Option.map_eq_some_iff] at collects
  obtain ⟨first, isFirst, isStage⟩ := collects
  have alone : first.stage.FoundNobody := by
    rw [isStage]
    trivial
  exact ⟨finish, first, ran, isFirst, alone, fun i second isSecond secondAlone =>
    alone_of_run allPlain_twoStarts allVisible_twoStarts ran isFirst isSecond alone secondAlone⟩

/-- A third collector is terminated, and unmounts the file systems, when the second one is in its
search. -/
def terminatedThird : List Event :=
  [.start (samplingCollector 7), .move 0 .parse, .move 0 (.enter true), .move 0 (.check false),
    .move 0 .opendir, .move 0 (.readdir 0), .move 0 .enddir, .move 0 (.proceed true),
    .start (samplingCollector 8), .move 1 .parse, .move 1 (.enter true), .move 1 (.check false),
    .move 1 .opendir, .start (samplingCollector 9), .move 2 .parse, .move 2 (.enter true),
    .move 2 .term, .move 1 (.readdir 0), .move 1 (.readdir 1), .move 1 .enddir]

/-- Then the second one does not find the first. -/
theorem not_alone_of_terminatedThird :
    (run (System.step collectorName) init terminatedThird).map
        (fun system => system.procs.map (·.stage)) =
      some [.collecting { argumentsSetDefaults with hz := 50 },
        .alone { argumentsSetDefaults with hz := 50 }, .exited] := by
  decide +kernel

/-! ## The shared file systems -/

/-- What an event must not be for the file systems to be left to the collector: the start of a
dumper, a process refused by an initrd, or `SIGTERM` for another process than the collector. -/
def Considerate (system : System) : Event → Prop
  | .start running => ∀ own, ownArguments running.words = some own → own.dumpPath = none
  | .move index action =>
      action ≠ .check true ∧
        (action = .term → ∀ proc, system.procs[index]? = some proc →
          ∃ args, proc.stage = .collecting args)

/-- The file systems are left to the collector. -/
structure Kept (system : System) : Prop where
  /-- Nobody wants to dump. -/
  pathless : ∀ proc ∈ system.procs, ∀ own, ownArguments proc.running.words = some own →
    own.dumpPath = none
  /-- Nobody is about to clean up at `exit`. -/
  tidy : ∀ proc ∈ system.procs,
    ¬(proc.stage = .leaving true ∨ ∃ args pid, proc.stage = .dumping args pid)
  /-- They are mounted as long as a process collects. -/
  mounted : ∀ proc ∈ system.procs, ∀ args, proc.stage = .collecting args → system.mounted = true

/-- Nobody is there in the beginning. -/
theorem kept_init : Kept init where
  pathless := List.forall_mem_nil _
  tidy := List.forall_mem_nil _
  mounted := List.forall_mem_nil _

/-- A process that is started has not done anything. -/
theorem Kept.start
    (kept : Kept system)
    (considerate : Considerate system (.start running))
    (started : system.step program (.start running) = some next) :
    Kept next := by
  rw [step] at started
  split at started
  next =>
    obtain rfl := Option.some.inj started
    refine ⟨?_, ?_, ?_⟩
    · intro proc member
      rcases List.mem_append.mp member with before | new
      · exact kept.pathless proc before
      · rw [List.mem_singleton.mp new]
        exact considerate
    · intro proc member
      rcases List.mem_append.mp member with before | new
      · exact kept.tidy proc before
      · rw [List.mem_singleton.mp new]
        simp
    · intro proc member args collects
      rcases List.mem_append.mp member with before | new
      · exact kept.mounted proc before args collects
      · rw [List.mem_singleton.mp new] at collects
        cases collects
  next => cases started

/-- Nobody unmounts the file systems of another that collects. -/
theorem Kept.mounted_of_move {index i : Nat} {other : Proc} {args : Arguments}
    (kept : Kept system)
    (exclusive : Phase.Exclusive system.phases)
    (considerate : Considerate system (.move index action))
    (isProc : system.procs[index]? = some proc)
    (moved : Moved program system proc.running proc.stage action after mounted)
    (different : i ≠ index)
    (isOther : system.procs[i]? = some other)
    (collects : other.stage = .collecting args) :
    mounted = true := by
  have wasMounted := kept.mounted other (List.mem_of_getElem? isOther) args collects
  have isInside : system.phases i = .inside := by
    rw [phases_eq isOther, collects]
    rfl
  have notInside : proc.stage.phase ≠ .inside := by
    intro same
    exact different (exclusive.alone i index isInside ((phases_eq isProc).trans same))
  cases mounted with
  | true => rfl
  | false =>
      rcases moved.unmounted wasMounted with ⟨alone, isAlone⟩ | isLeaving | isTerm
      · rw [isAlone] at notInside
        exact absurd rfl notInside
      · exact absurd (Or.inl isLeaving) (kept.tidy proc (List.mem_of_getElem? isProc))
      · obtain ⟨own, isCollecting⟩ := considerate.2 isTerm proc isProc
        rw [isCollecting] at notInside
        exact absurd rfl notInside

/-- A considerate move leaves the file systems to the collector. -/
theorem Kept.move {index : Nat}
    (kept : Kept system)
    (sound : Sound program system)
    (exclusive : Phase.Exclusive system.phases)
    (considerate : Considerate system (.move index action))
    (stepped : system.step program (.move index action) = some next) :
    Kept next := by
  obtain ⟨proc, stage, mounted, isProc, moved, rfl⟩ := exists_of_step stepped
  have member := List.mem_of_getElem? isProc
  refine ⟨?_, ?_, ?_⟩
  · intro other isMember
    obtain ⟨i, isOther⟩ := List.getElem?_of_mem isMember
    rcases getElem?_set_cases isOther with ⟨rfl, rfl⟩ | ⟨-, same⟩
    · exact kept.pathless proc member
    · exact kept.pathless other (List.mem_of_getElem? same)
  · intro other isMember cleans
    obtain ⟨i, isOther⟩ := List.getElem?_of_mem isMember
    rcases getElem?_set_cases isOther with ⟨rfl, rfl⟩ | ⟨-, same⟩
    · rcases moved.cleans cleans with isRefused | isDumping | ⟨args, has, path⟩
      · exact considerate.1 isRefused
      · exact kept.tidy proc member (Or.inr isDumping)
      · rw [kept.pathless proc member args (sound.parsed proc member args has).1] at path
        cases path
    · exact kept.tidy other (List.mem_of_getElem? same) cleans
  · intro other isMember args collects
    obtain ⟨i, isOther⟩ := List.getElem?_of_mem isMember
    rcases getElem?_set_cases isOther with ⟨rfl, rfl⟩ | ⟨different, same⟩
    · obtain rfl : stage = .collecting args := collects
      exact moved.isMounted
    · exact kept.mounted_of_move exclusive considerate isProc moved different same collects

/-- The events of a run are considerate. -/
def AllConsiderate (program : Text) (events : List Event) : Prop :=
  ∀ done event, done ++ [event] <+: events →
    ∀ system, run (System.step program) init done = some system → Considerate system event

/-- As long as nobody dumps, is refused by an initrd or is terminated but the collector, the file
systems that it works in stay mounted, whatever other collectors and probes are started, if nothing
is unmounted while a process is in its search. -/
theorem mounted_of_run {events : List Event} {finish : System}
    (plain : AllPlain events)
    (visible : AllVisible program events)
    (considerate : AllConsiderate program events)
    (ran : run (System.step program) init events = some finish)
    (member : proc ∈ finish.procs)
    {args : Arguments}
    (collects : proc.stage = .collecting args) :
    finish.mounted = true := by
  have kept := run_induction
    (fun done state => done <+: events → Kept state)
    (fun _ => kept_init)
    (by
      intro done state event next ranDone holds stepped isPrefix
      have before := (List.prefix_append done [event]).trans isPrefix
      have plainDone : AllPlain done := fun running member =>
        plain running (before.subset member)
      obtain ⟨sound, exclusive⟩ := sound_run plainDone
        (fun first isFirst => visible first (isFirst.trans before)) ranDone
      have isConsiderate := considerate done event isPrefix state ranDone
      cases event with
      | start running => exact (holds before).start isConsiderate stepped
      | move index action =>
          exact (holds before).move sound exclusive isConsiderate stepped)
    ran
  exact (kept (List.prefix_refl events)).mounted proc member args collects

/-- An event that is considerate at any time. -/
def isQuiet : Event → Bool
  | .start running => (ownArguments running.words).all (·.dumpPath.isNone)
  | .move _ action => action ≠ .check true && action ≠ .term

/-- A run of such events is considerate. -/
theorem allConsiderate_of_isQuiet {events : List Event} (quiet : events.all isQuiet = true) :
    AllConsiderate program events := by
  intro done event isPrefix system _
  have isQuiet := List.all_eq_true.mp quiet event
    (isPrefix.subset (List.mem_append_right _ (List.mem_singleton_self event)))
  cases event with
  | start running =>
      intro own isOwn
      rw [System.isQuiet, isOwn] at isQuiet
      exact Option.isNone_iff_eq_none.mp isQuiet
  | move index action =>
      rw [System.isQuiet, Bool.and_eq_true, decide_eq_true_eq, decide_eq_true_eq] at isQuiet
      exact ⟨isQuiet.1, fun isTerm => absurd isTerm isQuiet.2⟩

theorem mounted_of_twoStarts :
    ((run (System.step collectorName) init twoStarts).map (·.mounted)) = some true := by
  obtain ⟨finish, ran⟩ := Option.isSome_iff_exists.mp
    (show (run (System.step collectorName) init twoStarts).isSome = true by decide +kernel)
  have collects : ((run (System.step collectorName) init twoStarts).bind fun system =>
      system.procs[0]?.map (·.stage)) = some (.collecting { argumentsSetDefaults with hz := 50 }) := by
    decide +kernel
  rw [ran, Option.bind_some, Option.map_eq_some_iff] at collects
  obtain ⟨proc, isProc, isStage⟩ := collects
  have quiet : twoStarts.all isQuiet = true := by decide +kernel
  rw [ran, Option.map_some, mounted_of_run allPlain_twoStarts allVisible_twoStarts
    (allConsiderate_of_isQuiet quiet) ran (List.mem_of_getElem? isProc) isStage]

/-- A process that was started to look for a collector. -/
def probe (pid : Nat) : Running :=
  { samplingCollector pid with
    words := ["bootchart-collector".toList, "--probe-running".toList]
    named := List.cons_ne_nil _ _
    endless := by decide +kernel }

/-- A probe that has found nobody unmounts the file systems when a collector and another probe are
in their searches; one more collector mounts them again. -/
def twoProbes : List Event :=
  [.start (probe 7), .move 0 .parse, .move 0 (.enter true), .move 0 (.check false),
    .move 0 .opendir, .move 0 (.readdir 0), .move 0 .enddir,
    .start (samplingCollector 8), .move 1 .parse, .move 1 (.enter true), .move 1 (.check false),
    .move 1 .opendir, .start (probe 9), .move 2 .parse, .move 2 (.enter true),
    .move 2 (.check false), .move 2 .opendir, .move 0 (.proceed true), .move 1 (.readdir 1),
    .move 1 .enddir, .move 2 (.readdir 1), .move 2 (.readdir 2), .move 2 .enddir,
    .start (samplingCollector 10), .move 3 .parse, .move 3 (.enter true), .move 1 (.proceed true),
    .move 2 (.proceed true)]

/-- Then the second probe does not find the collector, and unmounts them while that collects. -/
theorem not_mounted_of_twoProbes :
    AllConsiderate collectorName twoProbes ∧
      (run (System.step collectorName) init twoProbes).map
          (fun system => (system.procs[1]?.map (·.stage), system.mounted)) =
        some (some (.collecting { argumentsSetDefaults with hz := 50 }), false) :=
  ⟨allConsiderate_of_isQuiet (by decide +kernel), by decide +kernel⟩

end System

end Collector
end Bootchart
