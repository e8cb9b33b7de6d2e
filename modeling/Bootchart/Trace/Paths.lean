import Bootchart.Trace.ParseOrder
import Mathlib.Data.Char
import Mathlib.Data.List.Lex
import Mathlib.Data.List.Sort

/-!
# The paths of a trace

`parse_paths` is given paths of files, of directories and of archives of logs. The logs are parsed
as they are met: those of a directory in the order of their names, those of an archive as they
stand in it. A directory and an archive of the same logs are the same trace.
-/

namespace Bootchart
namespace Trace

open Library (Text run)
open Parsing

/-! ## Names -/

/-- `os.path.basename`. -/
def basename (path : Text) : Text :=
  (path.reverse.takeWhile (· ≠ '/')).reverse

/-- `os.path.splitext`: leading dots of a name begin no extension. -/
def splitext (path : Text) : Text × Text :=
  let name := (basename path).reverse
  let extension := (name.takeWhile (· ≠ '.')).reverse
  let stem := ((name.dropWhile (· ≠ '.')).drop 1).reverse
  if stem.any (· ≠ '.') then
    (path.take (path.length - (extension.length + 1)), '.' :: extension)
  else (path, [])

/-- `os.path.join`. -/
def join (directory name : Text) : Text :=
  if name.head? = some '/' then name
  else if directory = [] ∨ directory.getLast? = some '/' then directory ++ name
  else directory ++ '/' :: name

/-! ## Disks -/

/-- A member of an archive: its name and, if it is a file, its contents. -/
abbrev Member := Text × Option Bytes

/-- What is at a path. -/
inductive Node
  /-- A directory, with what `os.listdir` tells of it. -/
  | directory (names : List Text)
  /-- A file, with the members `tarfile` finds in it if it is an archive. -/
  | file (contents : Bytes) (members : Option (List Member))
  deriving DecidableEq

/-- What is at each path, if anything is. -/
abbrev Disk := Text → Option Node

/-- `os.path.isfile`. -/
def isfile (disk : Disk) (path : Text) : Bool :=
  match disk path with
  | some (.file _ _) => true
  | _ => false

/-- What `parse_paths` warns of. -/
inductive PathWarning
  /-- There is nothing at the path. -/
  | doesNotExist (path : Text)
  /-- A zipped file with another extension than that of an archive. -/
  | notTar (extension : Text)

/-- What has been parsed of some paths. -/
structure Parsed where
  /-- The series. -/
  trace : Trace
  /-- `filename`. -/
  filename : Option Text
  /-- The warnings. -/
  warnings : List PathWarning

/-- Before anything is parsed. -/
def Parsed.empty : Parsed where
  trace := Trace.empty
  filename := none
  warnings := []

/-- Why paths cannot be parsed. -/
inductive PathError
  /-- `ParseError`: the archive at the path cannot be read. -/
  | readTarfile (path : Text)
  /-- The exception of a log. -/
  | raised (exception : Exception)
  /-- A member with the name of a log is no file, and cannot be read. -/
  | notAFile

/-! ## Parsing paths -/

/-- `_do_parse`, with what has been parsed of other paths. -/
def Parsed.doParse (state : Parsed) (file : File) : Except PathError Parsed :=
  match Trace.doParse state.trace file with
  | .ok trace => .ok { state with trace := trace }
  | .error exception => .error (.raised exception)

/-- `extractfile`: of several members of a name the last one counts. -/
def extractfile (members : List Member) (name : Text) : Option Bytes :=
  (members.reverse.find? fun member => member.1 = name).bind Prod.snd

/-- A turn of the loop over `getnames`. -/
def parseMember (members : List Member) (state : Parsed) (name : Text) :
    Except PathError Parsed :=
  match extractfile members name with
  | some contents => state.doParse (name, contents)
  | none =>
      match Log.ofName name with
      | some _ => .error .notAFile
      | none => .ok state

/-- The extensions that are tried as archives. -/
def archiveExtensions : List Text :=
  [".tar".toList, ".tgz".toList, ".gz".toList]

/-- The path has one of them. -/
def isArchive (path : Text) : Bool :=
  archiveExtensions.any fun extension => extension = (splitext path).2

/-- The extension inside that of a zipped file, if it is not that of an archive. -/
def zippedOther (path : Text) : Option Text :=
  if (splitext path).2 = ".gz".toList then
    let extension := (splitext (splitext path).1).2
    if extension = ".tar".toList then none else some extension
  else none

/-- A turn of the loop of `parse_paths`; `recursive` is the call for the files of a directory. -/
def parsePath
    (disk : Disk)
    (recursive : Parsed → List Text → Except PathError Parsed)
    (state : Parsed)
    (path : Text) :
    Except PathError Parsed :=
  match disk path with
  | none => .ok { state with warnings := state.warnings ++ [.doesNotExist path] }
  | some (.directory names) =>
      recursive { state with filename := some path }
        (((names.map (join path)).filter (isfile disk)).insertionSort (· ≤ ·))
  | some (.file contents members) =>
      let state := { state with filename := some path }
      if isArchive path then
        match zippedOther path with
        | some extension => .ok { state with warnings := state.warnings ++ [.notTar extension] }
        | none =>
            match members with
            | some members => (members.map Prod.fst).foldlM (parseMember members) state
            | none => .error (.readTarfile path)
      else state.doParse (basename path, contents)

/-- `parse_paths` for files, which have no files below them. -/
def parseFiles (disk : Disk) (state : Parsed) (paths : List Text) : Except PathError Parsed :=
  paths.foldlM (parsePath disk fun state _ => .ok state) state

/-- `parse_paths`. A directory is left to the loop over its files. -/
def parsePathsOn (disk : Disk) (state : Parsed) (paths : List Text) : Except PathError Parsed :=
  paths.foldlM (parsePath disk (parseFiles disk)) state

/-- Nothing is below a file. -/
theorem parsePath_of_isfile
    {disk : Disk}
    {path : Text}
    (isFile : isfile disk path = true)
    (first second : Parsed → List Text → Except PathError Parsed)
    (state : Parsed) :
    parsePath disk first state path = parsePath disk second state path := by
  unfold isfile at isFile
  unfold parsePath
  cases isNode : disk path with
  | none => rfl
  | some node =>
      cases node with
      | directory names =>
          rw [isNode] at isFile
          cases isFile
      | file contents members => rfl

/-- The loop over files is that over any paths. -/
theorem parseFiles_eq
    {disk : Disk}
    {paths : List Text}
    (areFiles : ∀ path ∈ paths, isfile disk path = true)
    (state : Parsed) :
    parseFiles disk state paths = parsePathsOn disk state paths := by
  unfold parseFiles parsePathsOn
  induction paths generalizing state with
  | nil => rfl
  | cons path paths inductionHypothesis =>
      rw [List.forall_mem_cons] at areFiles
      rw [List.foldlM_cons, List.foldlM_cons,
        parsePath_of_isfile areFiles.1 _ (parseFiles disk)]
      cases parsePath disk (parseFiles disk) state path with
      | error exception => rfl
      | ok next => exact inductionHypothesis areFiles.2 next

/-- `parse_paths` calls itself for the files of a directory. -/
theorem parsePathsOn_eq (disk : Disk) (state : Parsed) (paths : List Text) :
    parsePathsOn disk state paths =
      paths.foldlM (parsePath disk (parsePathsOn disk)) state := by
  have same : parsePath disk (parseFiles disk) = parsePath disk (parsePathsOn disk) := by
    funext state path
    unfold parsePath
    cases disk path with
    | none => rfl
    | some node =>
        cases node with
        | file contents members => rfl
        | directory names =>
            apply parseFiles_eq
            intro file member
            rw [(List.perm_insertionSort _ _).mem_iff] at member
            exact (List.mem_filter.mp member).2
  rw [parsePathsOn, same]

/-! ## The files that are met -/

/-- What is parsed for a member of an archive. -/
def memberFiles (members : List Member) (name : Text) : Option (List File) :=
  match extractfile members name with
  | some contents => some [(name, contents)]
  | none =>
      match Log.ofName name with
      | some _ => none
      | none => some []

/-- The files that are parsed for a path; none if it cannot be read. -/
def pathFiles (disk : Disk) (recursive : List Text → Option (List File)) (path : Text) :
    Option (List File) :=
  match disk path with
  | none => some []
  | some (.directory names) =>
      recursive (((names.map (join path)).filter (isfile disk)).insertionSort (· ≤ ·))
  | some (.file contents members) =>
      if isArchive path then
        match zippedOther path with
        | some _ => some []
        | none =>
            members.bind fun members =>
              ((members.map Prod.fst).mapM (memberFiles members)).map List.flatten
      else some [(basename path, contents)]

/-- The files that are parsed for some paths. -/
def met (disk : Disk) (paths : List Text) : Option (List File) :=
  (paths.mapM (pathFiles disk fun files =>
    (files.mapM (pathFiles disk fun _ => some [])).map List.flatten)).map List.flatten

/-- Parsing a file of a path is parsing the file. -/
theorem toOption_doParse (state : Parsed) (file : File) :
    (state.doParse file).toOption.map Parsed.trace =
      ([file].foldlM Trace.doParse state.trace).toOption := by
  rw [Parsed.doParse, List.foldlM_cons]
  cases Trace.doParse state.trace file <;> rfl

/-- Parsing a member is parsing its file. -/
theorem toOption_parseMember (members : List Member) (state : Parsed) (name : Text) :
    (parseMember members state name).toOption.map Parsed.trace =
      (memberFiles members name).bind fun files =>
        (files.foldlM Trace.doParse state.trace).toOption := by
  unfold parseMember memberFiles
  cases extractfile members name with
  | some contents => exact toOption_doParse state (name, contents)
  | none => cases Log.ofName name <;> rfl

/-- Parsing a path is parsing its files. -/
theorem toOption_parsePath
    (disk : Disk)
    {recursive : Parsed → List Text → Except PathError Parsed}
    {files : List Text → Option (List File)}
    (agrees : ∀ state paths, (recursive state paths).toOption.map Parsed.trace =
      (files paths).bind fun files => (files.foldlM Trace.doParse state.trace).toOption)
    (state : Parsed)
    (path : Text) :
    (parsePath disk recursive state path).toOption.map Parsed.trace =
      (pathFiles disk files path).bind fun files =>
        (files.foldlM Trace.doParse state.trace).toOption := by
  unfold parsePath pathFiles
  cases disk path with
  | none => rfl
  | some node =>
      cases node with
      | directory names => exact agrees _ _
      | file contents members =>
          dsimp only
          split
          next =>
            cases zippedOther path with
            | some extension => rfl
            | none =>
                cases members with
                | none => rfl
                | some members =>
                    have all := Library.toOption_foldlM (toOption_parseMember members)
                      (members.map Prod.fst) { state with filename := some path }
                    dsimp only at all ⊢
                    rw [all, Option.bind_some, Option.bind_map]
                    rfl
          next => exact toOption_doParse _ _

/-- Parsing paths is parsing the files that are met, one after the other. -/
theorem toOption_parsePathsOn (disk : Disk) (paths : List Text) :
    (parsePathsOn disk Parsed.empty paths).toOption.map Parsed.trace =
      (met disk paths).bind fun files => (parsePaths files).toOption := by
  have files : ∀ state paths, (parseFiles disk state paths).toOption.map Parsed.trace =
      ((paths.mapM (pathFiles disk fun _ => some [])).map List.flatten).bind fun files =>
        (files.foldlM Trace.doParse state.trace).toOption := by
    intro state paths
    rw [Option.bind_map]
    exact Library.toOption_foldlM (toOption_parsePath disk fun _ _ => rfl) paths state
  have all := Library.toOption_foldlM (toOption_parsePath disk files) paths Parsed.empty
  rw [parsePathsOn, met, Option.bind_map]
  exact all

/-! ## The header first -/

/-- The disk statistics are not parsed before the header. -/
def HeaderFirst (files : List File) : Prop :=
  ¬[Log.procDiskstats.name, Log.header.name].Sublist (names files)

instance (files : List File) : Decidable (HeaderFirst files) :=
  inferInstanceAs (Decidable (¬_))

section Headers

variable {files other : List File} {headers : Headers} {header : Bytes}

/-- Other files leave the headers as they are. -/
theorem headers_parseStep
    {file : File}
    {state next : Trace}
    {given : Option Headers}
    (notHeader : file.1 ≠ Log.header.name)
    (stepped : parseStep given state file = some next) :
    next.headers = state.headers := by
  cases isLog : Log.ofName file.1 with
  | none =>
      rw [parseStep, isLog] at stepped
      rw [Option.some.inj stepped]
  | some log =>
      obtain ⟨contents, parsed, rfl⟩ := (parseStep_eq_some isLog).mp stepped
      apply headers_store
      rw [series_eq_of_parseLog parsed]
      cases log with
      | header => exact absurd (Log.ofName_eq_some.mp isLog).symm notHeader
      | _ =>
          intro same
          cases same

/-- Files without a header among them are parsed with the headers that are there before. -/
theorem run_eq_of_noHeader
    {start : Trace}
    (noHeader : Log.header.name ∉ names files) :
    run (fun state file => parseStep state.headers state file) start files =
      run (parseStep start.headers) start files := by
  apply Library.run_congr fun state => state.headers = start.headers
  · intro file _ state same
    rw [same]
  · intro file member state next same stepped
    have notHeader : file.1 ≠ Log.header.name := by
      intro isHeader
      exact noHeader (isHeader ▸ List.mem_map_of_mem member)
    exact (headers_parseStep notHeader stepped).trans same
  · rfl

/-- Files without disk statistics among them are parsed alike with any headers. -/
theorem run_eq_of_noDisk
    {start : Trace}
    (noDisk : Log.procDiskstats.name ∉ names files)
    (given : Option Headers) :
    run (fun state file => parseStep state.headers state file) start files =
      run (parseStep given) start files := by
  apply Library.run_congr fun _ => True
  · intro file member state _
    cases isLog : Log.ofName file.1 with
    | none => rw [parseStep, parseStep, isLog]
    | some log =>
        have notDisk : log ≠ .procDiskstats := by
          rintro rfl
          exact noDisk (Log.ofName_eq_some.mp isLog ▸ List.mem_map_of_mem member)
        rw [parseStep, parseStep, isLog]
        dsimp only
        rw [parseLog_eq notDisk state.headers, parseLog_eq notDisk given]
  · intro _ _ _ _ _ _
    trivial
  · trivial

/-- Files of which the header comes first are parsed with its headers. -/
theorem parsePaths_eq_run_some
    (distinct : (names files).Nodup)
    (headerFirst : HeaderFirst files)
    (isHeader : (Log.header.name, header) ∈ files)
    (areHeaders : parseHeaders header = .ok headers) :
    (parsePaths files).toOption = run (parseStep (some headers)) empty files := by
  obtain ⟨before, behind, rfl⟩ := List.append_of_mem isHeader
  have noDisk : Log.procDiskstats.name ∉ names before := by
    intro isDisk
    apply headerFirst
    rw [names, List.map_append, List.map_cons]
    exact (List.singleton_sublist.mpr isDisk).append
      (List.singleton_sublist.mpr List.mem_cons_self)
  have noHeader : Log.header.name ∉ names behind := by
    rw [names, List.map_append, List.map_cons] at distinct
    exact (List.nodup_cons.mp (List.nodup_append.mp distinct).2.1).1
  rw [toOption_parsePaths, Library.run_append, Library.run_append,
    run_eq_of_noDisk noDisk (some headers)]
  congr 1
  funext middle
  have step : ∀ given, parseStep given middle (Log.header.name, header) =
      some (middle.store (.headers headers)) := by
    intro given
    apply (parseStep_eq_some rfl).mpr
    refine ⟨_, ?_, rfl⟩
    rw [parseLog, areHeaders]
    rfl
  rw [Library.run_cons, Library.run_cons, step, step]
  exact run_eq_of_noHeader noHeader

/-- Files of one trace can be parsed in any order in which the header comes first. -/
theorem parsePaths_perm
    (oneTrace : OneTrace files)
    (perm : other.Perm files)
    (headerFirst : HeaderFirst files)
    (otherFirst : HeaderFirst other) :
    (parsePaths other).toOption = (parsePaths files).toOption := by
  have samePerm := (perm.map Prod.fst)
  have otherDistinct : (names other).Nodup := samePerm.nodup_iff.mpr oneTrace.distinct
  by_cases isHeader : Log.header.name ∈ names files
  · obtain ⟨⟨name, header⟩, member, rfl⟩ := List.mem_map.mp isHeader
    have otherMember := perm.mem_iff.mpr member
    cases areHeaders : parseHeaders header with
    | ok headers =>
        rw [parsePaths_eq_run_some otherDistinct otherFirst otherMember areHeaders,
          parsePaths_eq_run_some oneTrace.distinct headerFirst member areHeaders]
        exact run_parseStep_perm oneTrace perm _ _
    | error exception =>
        have fails : ∀ state : Trace, parseStep state.headers state (Log.header.name, header) =
            none := by
          intro state
          rw [parseStep]
          change ((parseLog state.headers header .header).map state.store).toOption = none
          rw [parseLog, areHeaders]
          rfl
        rw [toOption_parsePaths, toOption_parsePaths, Library.run_eq_none otherMember fails,
          Library.run_eq_none member fails]
  · have noOther : Log.header.name ∉ names other := fun member =>
      isHeader (samePerm.mem_iff.mp member)
    rw [toOption_parsePaths, toOption_parsePaths, run_eq_of_noHeader noOther,
      run_eq_of_noHeader isHeader]
    exact run_parseStep_perm oneTrace perm _ _

end Headers

/-! ## Directories and archives -/

/-- A name without a slash does not begin with one. -/
theorem head?_ne_slash {name : Text} (noSlash : '/' ∉ name) : name.head? ≠ some '/' :=
  fun isHead => noSlash (List.mem_of_mem_head? isHead)

/-- The name of a file in a directory. -/
theorem basename_join {name : Text} (noSlash : '/' ∉ name) (directory : Text) :
    basename (join directory name) = name := by
  have ends : ∀ front : Text, (∀ c ∈ front.getLast?, c = '/') →
      basename (front ++ name) = name := by
    intro front isSlash
    have plain : ∀ c ∈ name.reverse, decide (c ≠ '/') = true := by
      intro c member
      rw [decide_eq_true_eq]
      rintro rfl
      exact noSlash (List.mem_reverse.mp member)
    rw [basename, List.reverse_append, Library.Text.takeWhile_append_eq plain,
      List.reverse_reverse]
    intro c isLast
    rw [List.head?_reverse] at isLast
    rw [isSlash c isLast]
    rfl
  rw [join, if_neg (head?_ne_slash noSlash)]
  split
  next isOpen =>
    apply ends
    intro c isLast
    rcases isOpen with rfl | isSlash
    · cases isLast
    · rw [isSlash] at isLast
      exact (Option.some.inj isLast).symm
  next =>
    have slash := ends (directory ++ ['/']) (by simp)
    rwa [List.append_assoc] at slash

/-- The extension of a path is that of its name. -/
theorem isArchive_join {name : Text} (noSlash : '/' ∉ name) (directory : Text) :
    isArchive (join directory name) = isArchive name := by
  have alone : basename name = name := by
    have joined := basename_join noSlash []
    rwa [join, if_neg (head?_ne_slash noSlash), if_pos (Or.inl rfl)] at joined
  simp only [isArchive, splitext, basename_join noSlash, alone, apply_ite Prod.snd]

/-- Paths in a directory are in the order of the names. -/
theorem join_lt_join
    {first second : Text}
    (noSlash : '/' ∉ first)
    (alsoNoSlash : '/' ∉ second)
    (less : first < second)
    (directory : Text) :
    join directory first < join directory second := by
  rw [join, join, if_neg (head?_ne_slash noSlash), if_neg (head?_ne_slash alsoNoSlash)]
  split
  next => exact List.append_left_lt less
  next => exact List.append_left_lt (List.cons_lt_cons_iff.mpr (Or.inr ⟨rfl, less⟩))

/-- A directory of some files, none of which has the extension of an archive. -/
structure Unpacked (disk : Disk) (directory : Text) (files : List File) : Prop where
  /-- The files of the directory. -/
  listed : ∃ names, disk directory = some (.directory names) ∧
    names.filter (fun name => isfile disk (join directory name)) = Trace.names files
  /-- Their contents. -/
  contents : ∀ file ∈ files, ∃ members,
    disk (join directory file.1) = some (.file file.2 members)
  /-- Names have no slash. -/
  noSlash : ∀ file ∈ files, '/' ∉ file.1
  /-- There are no archives. -/
  noArchive : ∀ file ∈ files, isArchive file.1 = false

/-- The files among some members. -/
def memberList (members : List Member) : List File :=
  members.filterMap fun member => member.2.map (member.1, ·)

/-- An archive of some members. -/
structure Packed (disk : Disk) (archive : Text) (members : List Member) : Prop where
  /-- It is at the path. -/
  atPath : ∃ contents, disk archive = some (.file contents (some members))
  /-- The path has the extension of an archive. -/
  extension : isArchive archive = true
  /-- What is zipped is an archive. -/
  notOther : zippedOther archive = none
  /-- The names are distinct. -/
  distinct : (members.map Prod.fst).Nodup
  /-- What is no file has no name of a log. -/
  others : ∀ member ∈ members, member.2 = none → Log.ofName member.1 = none

/-- The files that are met in an archive are its members. -/
theorem Packed.met_eq
    {disk : Disk}
    {archive : Text}
    {members : List Member}
    (packed : Packed disk archive members) :
    met disk [archive] = some (memberList members) := by
  obtain ⟨contents, atPath⟩ := packed.atPath
  have found : ∀ member ∈ members, extractfile members member.1 = member.2 := by
    intro member inMembers
    rw [extractfile]
    cases isFound : members.reverse.find? (fun other => decide (other.1 = member.1)) with
    | none =>
        rw [List.find?_eq_none] at isFound
        have differs := isFound member (List.mem_reverse.mpr inMembers)
        exact absurd (decide_eq_true rfl) differs
    | some other =>
        have named := List.find?_some isFound
        rw [decide_eq_true_eq] at named
        have isOther := List.mem_reverse.mp (List.mem_of_find?_eq_some isFound)
        rw [List.inj_on_of_nodup_map packed.distinct isOther inMembers named]
        rfl
  have reads : ∀ member ∈ members, memberFiles members member.1 =
      pure (member.2.toList.map (member.1, ·)) := by
    intro member inMembers
    rw [memberFiles, found member inMembers]
    cases isFile : member.2 with
    | some contents => rfl
    | none => rw [packed.others member inMembers isFile]; rfl
  have all : (members.map Prod.fst).mapM (memberFiles members) =
      some (members.map fun member => member.2.toList.map (member.1, ·)) := by
    rw [List.mapM_map]
    exact Library.mapM_eq_pure reads
  have flat : (members.map fun member => member.2.toList.map (member.1, ·)).flatten =
      memberList members := by
    rw [memberList, ← List.flatMap_def, List.filterMap_eq_flatMap_toList]
    congr 1
    funext member
    cases member.2 <;> rfl
  rw [met, List.mapM_cons, List.mapM_nil, pathFiles, atPath]
  dsimp only
  rw [if_pos packed.extension, packed.notOther]
  dsimp only
  rw [Option.bind_some, all, Option.map_some, flat]
  exact congrArg some (List.append_nil _)

/-- The file at a path. -/
def fileAt (disk : Disk) (path : Text) : File :=
  (basename path,
    match disk path with
    | some (.file contents _) => contents
    | _ => [])

namespace Unpacked

variable {disk : Disk} {directory : Text} {files : List File}

/-- A file is found at its path. -/
theorem fileAt_join
    (unpacked : Unpacked disk directory files)
    {file : File}
    (member : file ∈ files) :
    fileAt disk (join directory file.1) = file := by
  obtain ⟨members, isFile⟩ := unpacked.contents file member
  rw [fileAt, basename_join (unpacked.noSlash file member), isFile]

/-- It is parsed as it is. -/
theorem pathFiles_join
    (unpacked : Unpacked disk directory files)
    {file : File}
    (member : file ∈ files)
    (recursive : List Text → Option (List File)) :
    pathFiles disk recursive (join directory file.1) = some [file] := by
  obtain ⟨members, isFile⟩ := unpacked.contents file member
  have noSlash := unpacked.noSlash file member
  rw [pathFiles, isFile]
  dsimp only
  rw [isArchive_join noSlash, unpacked.noArchive file member, basename_join noSlash]
  rfl

/-- The files of a directory are met with the header first. -/
theorem exists_met_eq (unpacked : Unpacked disk directory files) :
    ∃ sorted, met disk [directory] = some sorted ∧ sorted.Perm files ∧ HeaderFirst sorted := by
  obtain ⟨listing, isDirectory, areFiles⟩ := unpacked.listed
  let paths := ((listing.map (join directory)).filter (isfile disk)).insertionSort (· ≤ ·)
  have permPaths : paths.Perm (files.map fun file => join directory file.1) := by
    apply (List.perm_insertionSort _ _).trans
    rw [List.filter_map, Function.comp_def, areFiles, Trace.names, List.map_map]
    exact List.Perm.refl _
  have ofFile : ∀ path ∈ paths, ∃ file ∈ files, join directory file.1 = path :=
    fun path member => List.mem_map.mp (permPaths.mem_iff.mp member)
  have reads : ∀ path ∈ paths, pathFiles disk (fun _ => some []) path =
      pure [fileAt disk path] := by
    intro path member
    obtain ⟨file, inFiles, rfl⟩ := ofFile path member
    rw [unpacked.pathFiles_join inFiles, unpacked.fileAt_join inFiles]
    rfl
  refine ⟨paths.map (fileAt disk), ?_, ?_, ?_⟩
  · have all : (paths.mapM (pathFiles disk fun _ => some [])).map List.flatten =
        some (paths.map (fileAt disk)) := by
      rw [Library.mapM_eq_pure reads]
      change some (paths.map fun path => [fileAt disk path]).flatten = _
      rw [← List.flatMap_def, ← List.map_eq_flatMap]
    rw [met, List.mapM_cons, List.mapM_nil, pathFiles, isDirectory]
    dsimp only
    rw [all]
    exact congrArg some (List.append_nil _)
  · apply (permPaths.map (fileAt disk)).trans
    rw [List.map_map]
    apply List.Perm.of_eq
    apply (List.map_congr_left ?_).trans (List.map_id files)
    intro file member
    exact unpacked.fileAt_join member
  · intro statsFirst
    rw [Trace.names, List.map_map, List.sublist_map_iff] at statsFirst
    obtain ⟨pair, isSublist, areNames⟩ := statsFirst
    obtain ⟨stats, rest, rfl, isStats, areRest⟩ := List.map_eq_cons_iff.mp areNames.symm
    obtain ⟨header, more, rfl, isHeader, isEnd⟩ := List.map_eq_cons_iff.mp areRest
    obtain rfl := List.map_eq_nil_iff.mp isEnd
    -- The paths are sorted, and the name of the header is before the other one.
    have sorted := (List.pairwise_insertionSort (· ≤ ·) _).sublist isSublist
    have ordered : stats ≤ header := (List.pairwise_pair.mp sorted)
    obtain ⟨first, isFirst, rfl⟩ := ofFile stats (isSublist.subset List.mem_cons_self)
    obtain ⟨second, isSecond, rfl⟩ := ofFile header
      (isSublist.subset (List.mem_cons_of_mem _ List.mem_cons_self))
    have noSlash := unpacked.noSlash first isFirst
    have alsoNoSlash := unpacked.noSlash second isSecond
    rw [Function.comp_apply, fileAt, basename_join noSlash] at isStats
    rw [Function.comp_apply, fileAt, basename_join alsoNoSlash] at isHeader
    have less : second.1 < first.1 := by
      rw [isHeader, isStats]
      decide
    exact absurd ordered (not_le_of_gt (join_lt_join alsoNoSlash noSlash less directory))

end Unpacked

/-- A directory of the logs of a trace and an archive of the same logs in which the disk
statistics do not stand before the header are parsed as the same trace, or neither is. -/
theorem parsePathsOn_archive
    {disk : Disk}
    {directory archive : Text}
    {files : List File}
    {members : List Member}
    (unpacked : Unpacked disk directory files)
    (packed : Packed disk archive members)
    (perm : (memberList members).Perm files)
    (oneTrace : OneTrace files)
    (headerFirst : HeaderFirst (memberList members)) :
    (parsePathsOn disk Parsed.empty [archive]).toOption.map Parsed.trace =
      (parsePathsOn disk Parsed.empty [directory]).toOption.map Parsed.trace := by
  obtain ⟨sorted, isMet, permSorted, sortedFirst⟩ := unpacked.exists_met_eq
  have sortedTrace : OneTrace sorted := by
    have samePerm := permSorted.map Prod.fst
    constructor
    case distinct => exact samePerm.nodup_iff.mpr oneTrace.distinct
    case oneProcessLog =>
      rintro ⟨isTaskstats, isProcPs⟩
      exact oneTrace.oneProcessLog
        ⟨samePerm.mem_iff.mp isTaskstats, samePerm.mem_iff.mp isProcPs⟩
    case oneParentLog =>
      rintro ⟨isPaternity, isPacct⟩
      exact oneTrace.oneParentLog
        ⟨samePerm.mem_iff.mp isPaternity, samePerm.mem_iff.mp isPacct⟩
  rw [toOption_parsePathsOn, toOption_parsePathsOn, packed.met_eq, isMet, Option.bind_some,
    Option.bind_some]
  exact parsePaths_perm sortedTrace (perm.trans permSorted.symm) sortedFirst headerFirst

/-- Two logs and a text. -/
def bootFiles : List File :=
  [("proc_diskstats.log".toList, []), ("README".toList, []), ("header".toList, [])]

/-- An archive of them, and of an empty directory. -/
def bootMembers : List Member :=
  [("header".toList, some []), ("old".toList, none), ("README".toList, some []),
    ("proc_diskstats.log".toList, some [])]

/-- A disk with a directory of these files, and with the archive. -/
def bootDisk : Disk := fun path =>
  (List.find? (fun entry => entry.1 = path) [
    ("boot".toList, .directory ["proc_diskstats.log".toList, "old".toList, "README".toList,
      "header".toList]),
    ("boot/old".toList, .directory []),
    ("boot/proc_diskstats.log".toList, .file [] none),
    ("boot/README".toList, .file [] none),
    ("boot/header".toList, .file [] none),
    ("boot.tar.gz".toList, .file [31, 139] (some bootMembers))]).map Prod.snd

/-- The directory and the archive are parsed as the same trace. -/
theorem parsePathsOn_boot :
    (parsePathsOn bootDisk Parsed.empty ["boot.tar.gz".toList]).toOption.map Parsed.trace =
      (parsePathsOn bootDisk Parsed.empty ["boot".toList]).toOption.map Parsed.trace := by
  have unpacked : Unpacked bootDisk "boot".toList bootFiles := by
    constructor
    case listed =>
      refine ⟨["proc_diskstats.log".toList, "old".toList, "README".toList, "header".toList],
        ?_, ?_⟩
      · decide +kernel
      · decide +kernel
    case contents =>
      intro file member
      have isThere : ∀ file ∈ bootFiles,
          bootDisk (join "boot".toList file.1) = some (.file file.2 none) := by
        decide +kernel
      exact ⟨none, isThere file member⟩
    case noSlash => decide +kernel
    case noArchive => decide +kernel
  have packed : Packed bootDisk "boot.tar.gz".toList bootMembers := by
    constructor
    case atPath => exact ⟨[31, 139], by decide +kernel⟩
    case extension => decide +kernel
    case notOther => decide +kernel
    case distinct => decide +kernel
    case others => decide +kernel
  have oneTrace : OneTrace bootFiles := by
    constructor
    case distinct => decide +kernel
    case oneProcessLog => decide +kernel
    case oneParentLog => decide +kernel
  exact parsePathsOn_archive unpacked packed (by decide +kernel) oneTrace (by decide +kernel)

end Trace
end Bootchart
