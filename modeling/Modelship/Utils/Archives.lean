import Modelship.Foundation.Glob
import Modelship.Foundation.Runs
import Modelship.Foundation.Text

namespace Modelship.Utils.Archives
open Foundation

-- The fetch of a pinned archive into a cache that processes share. Each may be killed at
-- any time, and a sweep removes what is left of a name.

abbrev Bytes := List UInt8

inductive Node where
  | file (content : Bytes)
  | dir (entries : List (String × Node))

abbrev Entries := List (String × Node)

namespace Node

def isFile : Node → Bool
  | .file _ => true
  | .dir _ => false

def isDir (node : Node) : Bool := !node.isFile

def find? : List String → Node → Option Node
  | [],node => some node
  | part :: rest,.dir entries => (entries.find? (·.1 = part)).bind fun entry => find? rest entry.2
  | _ :: _,.file _ => none

-- A required path; a trailing `/` marks a directory.
def has (node : Node) (path : String) : Bool :=
  let parts := (split '/' path.toList).map String.ofList
  match node.find? (parts.filter (· ≠ "")) with
  | some found => if parts.getLast? = some "" then found.isDir else found.isFile
  | none => false

end Node

structure Source where
  name : String
  sha256 : String
  required : List String

-- What is read of an archive with `tarfile`, and what writing a member to a directory
-- makes of it, if it does not raise.
structure Tools (Member : Type) where
  sha256 (content : Bytes) : String
  members (content : Bytes) : Option (List Member)
  extract (entries : Entries) (member : Member) : Option Entries

-- What a fetch leaves beside `dest` for a time: the archive, the download it is renamed
-- from (`fetch_and_extract_archive` would make one of its own), and the extraction.
inductive Part where
  | archive
  | loading (again : Bool)
  | extraction
  deriving DecidableEq

-- The files of the directory that `dest` is in. Each process has names of its own, by
-- `random_uuid`.
inductive Path where
  | dest (name : String)
  | temporary (name : String) (process : Nat) (part : Part)
  deriving DecidableEq

def Path.name : Path → String
  | .dest name | .temporary name _ _ => name

section
variable (uuid : Nat → Nat → List Char)

def Path.text : Path → List Char
  | .dest name => name.toList
  | .temporary name process .archive => '.' :: name.toList ++ '.' :: uuid process 0 ++ ".archive".toList
  | .temporary name process (.loading again) =>
    '.' :: name.toList ++ '.' :: uuid process 0 ++ ".archive".toList ++
      '.' :: uuid process (if again then 3 else 1) ++ ".tmp".toList
  | .temporary name process .extraction => name.toList ++ '.' :: uuid process 2 ++ ".tmp".toList

end

def hidden : List Char → Bool
  | '.' :: _ => true
  | _ => false

-- `glob.glob`, of a pattern that begins with these letters.
def globs (start : List Char) (rest : List Glob.Token) (text : List Char) : Bool :=
  (hidden start || !hidden text) && Glob.accepts (Glob.literal start ++ rest) text

-- What `remove_archive_leftovers` finds.
def leftover (name : String) (text : List Char) : Bool :=
  globs ('.' :: name.toList ++ ['.']) (.any :: Glob.literal ".archive".toList ++ [.any]) text ||
  globs (name.toList ++ ['.']) (.any :: Glob.literal ".tmp".toList) text

-- Where `download_archive_source` is, with `fetch_and_extract_archive` from `fetching` on.
inductive Stage (Member : Type) where
  | start
  | loading (again : Bool)
  | fetching
  | verifying
  | making
  | opening
  | extracting (rest : List Member)
  | clearing (raised : Bool)
  | dropping
  | failing
  | finishing
  | checking
  | done (published : Bool)
  | crashed

-- `refusals` are the processes that could not remove a file of theirs.
structure World (Member : Type) where
  files : Path → Option Node
  processes : List (Source × Stage Member)
  refusals : List Nat

inductive Act where
  | spawn (source : Source)
  | go (process : Nat)
  | write (process : Nat) (chunk : Bytes)
  | raises (process : Nat)
  | refuses (process : Nat) (left : Option Node)
  | crash (process : Nat)
  | sweep (name : String) (path : Path) (left : Option Node)

def put (files : Path → Option Node) (path : Path) (node : Option Node) : Path → Option Node :=
  fun other => if other = path then node else files other

-- The one directory a tree holds, if that is all, else the tree.
def rootOf : Entries → Entries
  | [(_,.dir entries)] => entries
  | entries => entries

-- What is left of the extraction's directory when its root is moved.
def moved : Entries → Option Node
  | [(_,.dir _)] => some (.dir [])
  | _ => none

-- A directory that is gone is made again for the next member.
def entriesOf : Option Node → Entries
  | some (.dir entries) => entries
  | _ => []

-- `os.replace` of a directory: a file or a full directory in its place makes it fail.
def vacant : Option Node → Bool
  | none | some (.dir []) => true
  | some _ => false

section
variable {Member : Type} (tools : Tools Member)

-- One step of a process, by itself.
def advance (files : Path → Option Node) (k : Nat) (source : Source) : Stage Member → Option ((Path → Option Node) × Stage Member)
  | .start =>
    if (files (.dest source.name)).any Node.isDir then some (files,.checking) else
    some (put files (.temporary source.name k (.loading false)) (some (.file [])),.loading false)
  | .loading again => match files (.temporary source.name k (.loading again)) with
    | some node => some (put (put files (.temporary source.name k .archive) (some node))
        (.temporary source.name k (.loading again)) none,if again then .verifying else .fetching)
    | none => some (files,.failing)
  | .fetching =>
    if (files (.temporary source.name k .archive)).any Node.isFile then some (files,.verifying) else
    some (put files (.temporary source.name k (.loading true)) (some (.file [])),.loading true)
  | .verifying => match files (.temporary source.name k .archive) with
    | some (.file content) =>
      if tools.sha256 content = source.sha256 then some (files,.making) else
      some (put files (.temporary source.name k .archive) none,.failing)
    | _ => some (files,.failing)
  | .making => some (put files (.temporary source.name k .extraction) (some (.dir [])),.opening)
  | .opening => match files (.temporary source.name k .archive) with
    | some (.file content) => match tools.members content with
      | some members => some (files,.extracting members)
      | none => some (files,.clearing true)
    | _ => some (files,.clearing true)
  | .extracting (member :: rest) =>
    match tools.extract (entriesOf (files (.temporary source.name k .extraction))) member with
    | some entries => some (put files (.temporary source.name k .extraction) (some (.dir entries)),.extracting rest)
    | none => some (files,.clearing true)
  | .extracting [] => match files (.temporary source.name k .extraction) with
    | some (.dir entries) =>
      if vacant (files (.dest source.name)) then
        some (put (put files (.dest source.name) (some (.dir (rootOf entries)))) (.temporary source.name k .extraction)
          (moved entries),.clearing false)
      else some (files,.clearing false)
    | _ => some (files,.clearing true)
  | .clearing raised => some (put files (.temporary source.name k .extraction) none,if raised then .failing else .dropping)
  | .dropping =>
    if (files (.temporary source.name k .archive)).isNone then some (files,.failing) else
    some (put files (.temporary source.name k .archive) none,.finishing)
  | .failing => some (put files (.temporary source.name k .archive) none,.done false)
  | .finishing => some (put files (.temporary source.name k .archive) none,.checking)
  | .checking => some (files,.done ((files (.dest source.name)).any fun node => node.isDir && source.required.all node.has))
  | .done _ | .crashed => none

-- An error in a download or an extraction: the `finally` of each.
def raised (files : Path → Option Node) (k : Nat) (source : Source) : Stage Member → Option ((Path → Option Node) × Stage Member)
  | .start => some (files,.done false)
  | .loading again => some (put files (.temporary source.name k (.loading again)) none,.failing)
  | .fetching | .verifying | .making => some (files,.failing)
  | .opening | .extracting _ => some (files,.clearing true)
  | _ => none

-- A removal that the file system refuses: `os.remove` raises, and `rmtree` with its errors
-- ignored leaves what it could not take away.
def refused (files : Path → Option Node) (k : Nat) (source : Source) (left : Option Node) :
    Stage Member → Option ((Path → Option Node) × Stage Member)
  | .loading _ | .dropping => some (files,.failing)
  | .clearing raised => some (put files (.temporary source.name k .extraction) left,if raised then .failing else .dropping)
  | .failing | .finishing => some (files,.done false)
  | _ => none

def Stage.live : Stage Member → Bool
  | .done _ | .crashed => false
  | _ => true

namespace World

def step (w : World Member) (k : Nat) (source : Source) (result : (Path → Option Node) × Stage Member) : World Member :=
  {w with files := result.1,processes := w.processes.set k (source,result.2)}

variable (uuid : Nat → Nat → List Char)

def next (w : World Member) : Act → Option (World Member)
  | .spawn source => some {w with processes := w.processes ++ [(source,.start)]}
  | .go k => w.processes[k]?.bind fun entry => (advance tools w.files k entry.1 entry.2).map (w.step k entry.1)
  | .write k chunk => match w.processes[k]? with
    | some (source,.loading again) => match w.files (.temporary source.name k (.loading again)) with
      | some (.file content) =>
        some (w.step k source (put w.files (.temporary source.name k (.loading again)) (some (.file (content ++ chunk))),
          .loading again))
      -- the file may be gone, and is written all the same
      | _ => some w
    | _ => none
  | .raises k => w.processes[k]?.bind fun entry => (raised w.files k entry.1 entry.2).map (w.step k entry.1)
  | .refuses k left => w.processes[k]?.bind fun entry =>
    (refused w.files k entry.1 left entry.2).map fun result => {w.step k entry.1 result with refusals := k :: w.refusals}
  | .crash k => w.processes[k]?.bind fun entry =>
    if entry.2.live then some (w.step k entry.1 (w.files,.crashed)) else none
  -- a directory may be left in part
  | .sweep name path left =>
    if leftover name (path.text uuid) ∧ (w.files path).isSome then some {w with files := put w.files path left} else none

def start : World Member := ⟨fun _ => none,[],[]⟩

def sources (w : World Member) : List Source := w.processes.map Prod.fst

end World
end

-- A name as the sources have it: the parts of a file name are told apart by their dots.
def Named (name : String) : Prop := name ≠ "" ∧ '.' ∉ name.toList

instance (name : String) : Decidable (Named name) := inferInstanceAs (Decidable (_ ∧ _))

theorem globs_start {start text : List Char} {rest : List Glob.Token} (found : globs start rest text = true) :
    ∃ tail, text = start ++ tail := by
  rw [globs,Bool.and_eq_true] at found
  exact Glob.accepts_literal start rest found.2

theorem named_first {name : String} (named : Named name) : ∃ c rest, name.toList = c :: rest ∧ c ≠ '.' := by
  cases letters : name.toList with
  | nil => exact absurd (String.ext letters) named.1
  | cons c rest =>
      refine ⟨c,rest,rfl,?_⟩
      rintro rfl
      exact named.2 (letters ▸ List.mem_cons_self)

theorem hidden_append {start : List Char} (some_ : start ≠ []) (text : List Char) : hidden (start ++ text) = hidden start := by
  cases start with
  | nil => exact absurd rfl some_
  | cons c start =>
      rw [List.cons_append]
      unfold hidden
      by_cases dot : c = '.'
      · subst dot
        rfl
      · simp [dot]

theorem globs_append {start : List Char} (some_ : start ≠ []) {rest : List Glob.Token} {text : List Char}
    (accepts : Glob.accepts rest text = true) : globs start rest (start ++ text) = true := by
  rw [globs,Glob.accepts_append,accepts,hidden_append some_]
  simp

section
variable {uuid : Nat → Nat → List Char} {name : String} {path : Path}

-- What is found for one name is no published directory, and no file of another name.
theorem leftover_own (named : Named name) (own : Named path.name) (found : leftover name (path.text uuid) = true) :
    path.name = name ∧ ∀ other, path ≠ .dest other := by
  obtain ⟨c,letters,first,visible⟩ := named_first named
  obtain ⟨d,others,second,seen⟩ := named_first own
  rw [leftover,Bool.or_eq_true] at found
  have apart : ∀ {one two : String} {rest more : List Char}, Named one → Named two →
      one.toList ++ '.' :: rest = two.toList ++ '.' :: more → one = two := by
    intro one two rest more named own same
    exact String.ext (separated named.2 own.2 same)
  cases path with
  | dest other =>
      exfalso
      rcases found with hidden_ | plain
      · obtain ⟨tail,same⟩ := globs_start hidden_
        change other.toList = _ at same
        exact own.2 (same ▸ List.mem_cons_self)
      · obtain ⟨tail,same⟩ := globs_start plain
        change other.toList = _ at same
        refine own.2 (same ▸ ?_)
        simp
  | temporary other process part =>
      refine ⟨?_,fun name same => nomatch same⟩
      change Named other at own
      change other.toList = _ at second
      change other = name
      cases part with
      | archive | loading again =>
          rcases found with hidden_ | plain
          · obtain ⟨tail,same⟩ := globs_start hidden_
            apply apart own named
            simpa [Path.text] using same
          · obtain ⟨tail,same⟩ := globs_start plain
            rw [first] at same
            simp [Path.text,visible.symm] at same
      | extraction =>
          rcases found with hidden_ | plain
          · obtain ⟨tail,same⟩ := globs_start hidden_
            simp [Path.text,second,seen] at same
          · obtain ⟨tail,same⟩ := globs_start plain
            apply apart own named
            simpa [Path.text] using same

-- Nothing that a fetch leaves is missed.
theorem leftover_temporary (uuid : Nat → Nat → List Char) (name : String) (process : Nat) (part : Part) :
    leftover name ((Path.temporary name process part).text uuid) = true := by
  rw [leftover,Bool.or_eq_true]
  cases part with
  | archive =>
      left
      have end_ := Glob.accepts_append ".archive".toList [.any] []
      rw [Glob.accepts_any,List.append_nil] at end_
      have whole := globs_append (List.cons_ne_nil '.' (name.toList ++ ['.'])) (Glob.accepts_star end_ (uuid process 0))
      simpa [Path.text] using whole
  | loading again =>
      left
      have end_ := Glob.accepts_append ".archive".toList [.any] ('.' :: uuid process (if again then 3 else 1) ++ ".tmp".toList)
      rw [Glob.accepts_any] at end_
      have whole := globs_append (List.cons_ne_nil '.' (name.toList ++ ['.'])) (Glob.accepts_star end_ (uuid process 0))
      simpa [Path.text] using whole
  | extraction =>
      right
      have end_ := Glob.accepts_append ".tmp".toList [] []
      rw [List.append_nil,List.append_nil] at end_
      have whole := globs_append (List.append_ne_nil_of_right_ne_nil name.toList (List.cons_ne_nil '.' []))
        (Glob.accepts_star (end_.trans rfl) (uuid process 2))
      simpa [Path.text] using whole

end

-- What a process may have beside `dest` where it is.
def Stage.uses {Member : Type} : Stage Member → List Part
  | .start | .finishing | .checking | .done _ => []
  | .loading false => [.loading false]
  | .loading true => [.loading true,.archive]
  | .fetching | .verifying | .making | .dropping | .failing => [.archive]
  | .opening | .extracting _ | .clearing _ => [.archive,.extraction]
  | .crashed => [.archive,.loading false,.loading true,.extraction]

section
variable {Member : Type} {tools : Tools Member} {files others : Path → Option Node} {k : Nat} {source : Source}
  {stage later : Stage Member}

theorem put_self (files : Path → Option Node) (path : Path) (node : Option Node) : put files path node path = node := if_pos rfl

theorem put_other {path other : Path} (apart : other ≠ path) (node : Option Node) :
    put files path node other = files other := if_neg apart

-- Nothing comes to be where a file that is there is changed.
theorem put_absent {path other : Path} (absent : files path = none) (there : (files other).isSome = true)
    (node : Option Node) : put files other node path = none := by
  rw [put_other]
  · exact absent
  · rintro rfl
    rw [absent] at there
    cases there

-- A process writes to its own files and to `dest` alone.
def Frames (files others : Path → Option Node) (k : Nat) (source : Source) : Prop :=
  ∀ path, path ≠ .dest source.name → (∀ part, path ≠ .temporary source.name k part) → others path = files path

theorem frames_refl : Frames files files k source := fun _ _ _ => rfl

theorem Frames.put (frames : Frames files others k source) (part : Part) (node : Option Node) :
    Frames files (Archives.put others (.temporary source.name k part) node) k source := by
  intro path dest own
  rw [put_other (own part)]
  exact frames path dest own

theorem Frames.publish (frames : Frames files others k source) (node : Option Node) :
    Frames files (Archives.put others (.dest source.name) node) k source := by
  intro path dest own
  rw [put_other dest]
  exact frames path dest own

theorem advance_frames (taken : advance tools files k source stage = some (others,later)) : Frames files others k source := by
  cases stage with
  | start =>
      simp only [advance] at taken
      split at taken <;> cases taken
      · exact frames_refl
      · exact frames_refl.put _ _
  | loading again =>
      simp only [advance] at taken
      split at taken <;> cases taken
      · exact (frames_refl.put _ _).put _ _
      · exact frames_refl
  | fetching =>
      simp only [advance] at taken
      split at taken <;> cases taken
      · exact frames_refl
      · exact frames_refl.put _ _
  | verifying =>
      simp only [advance] at taken
      split at taken
      · split at taken <;> cases taken
        · exact frames_refl
        · exact frames_refl.put _ _
      · cases taken
        exact frames_refl
  | opening =>
      simp only [advance] at taken
      split at taken
      · split at taken <;> cases taken <;> exact frames_refl
      · cases taken
        exact frames_refl
  | extracting rest =>
      cases rest with
      | nil =>
          simp only [advance] at taken
          split at taken
          · split at taken <;> cases taken
            · exact (frames_refl.publish _).put _ _
            · exact frames_refl
          · cases taken
            exact frames_refl
      | cons member rest =>
          simp only [advance] at taken
          split at taken <;> cases taken
          · exact frames_refl.put _ _
          · exact frames_refl
  | dropping =>
      simp only [advance] at taken
      split at taken <;> cases taken
      · exact frames_refl
      · exact frames_refl.put _ _
  | making | clearing _ | failing | finishing =>
      cases taken
      exact frames_refl.put _ _
  | checking =>
      cases taken
      exact frames_refl
  | done _ | crashed => cases taken

theorem raised_frames (taken : raised files k source stage = some (others,later)) : Frames files others k source := by
  cases stage <;> cases taken
  case loading again => exact frames_refl.put _ _
  all_goals exact frames_refl

theorem refused_frames {left : Option Node} (taken : refused files k source left stage = some (others,later)) :
    Frames files others k source := by
  cases stage <;> cases taken
  case clearing raised => exact frames_refl.put _ _
  all_goals exact frames_refl

-- There is no file of a process but these.
def Tidy (files : Path → Option Node) (k : Nat) (source : Source) (parts : List Part) : Prop :=
  ∀ part, part ∉ parts → files (.temporary source.name k part) = none

section
variable {parts more : List Part}

theorem Tidy.mono (tidy : Tidy files k source parts) (fewer : parts ⊆ more) : Tidy files k source more :=
  fun part unused => tidy part (fun used => unused (fewer used))

-- A file put there, or taken away.
theorem Tidy.put (tidy : Tidy files k source parts) {part : Part} {node : Option Node} (fewer : parts ⊆ part :: more)
    (here : part ∉ more → node = none) :
    Tidy (Archives.put files (.temporary source.name k part) node) k source more := by
  intro other unused
  by_cases same : other = part
  · subst same
    rw [put_self]
    exact here unused
  · rw [put_other (by simpa using same)]
    apply tidy
    intro used
    rcases List.mem_cons.mp (fewer used) with rfl | kept
    · exact same rfl
    · exact unused kept

theorem Tidy.publish (tidy : Tidy files k source parts) {name : String} {node : Option Node} :
    Tidy (Archives.put files (.dest name) node) k source parts := by
  intro part unused
  rw [put_other (by simp)]
  exact tidy part unused

end

theorem advance_tidy (tidy : Tidy files k source stage.uses) (taken : advance tools files k source stage = some (others,later)) :
    Tidy others k source later.uses := by
  cases stage with
  | start =>
      simp only [advance] at taken
      split at taken <;> cases taken
      · exact tidy
      · exact tidy.put (by simp [Stage.uses]) (by simp [Stage.uses])
  | loading again =>
      simp only [advance] at taken
      split at taken
      case h_1 node found =>
        cases taken
        have renamed : Tidy (put files (.temporary source.name k .archive) (some node)) k source [.loading again,.archive] :=
          tidy.put (by cases again <;> simp [Stage.uses]) (by simp)
        apply renamed.put
        · cases again <;> simp [Stage.uses]
        · exact fun _ => rfl
      case h_2 gone =>
        cases taken
        intro part unused
        by_cases same : part = .loading again
        · rw [same]
          exact gone
        · apply tidy
          cases again <;> simp_all [Stage.uses]
  | fetching =>
      simp only [advance] at taken
      split at taken <;> cases taken
      · exact tidy
      · exact tidy.put (by simp [Stage.uses]) (by simp [Stage.uses])
  | verifying =>
      simp only [advance] at taken
      split at taken
      · split at taken <;> cases taken
        · exact tidy
        · exact tidy.put (by simp [Stage.uses]) (fun _ => rfl)
      · cases taken
        exact tidy
  | making =>
      cases taken
      exact tidy.put (by simp [Stage.uses]) (by simp [Stage.uses])
  | opening =>
      simp only [advance] at taken
      split at taken
      · split at taken <;> cases taken <;> exact tidy
      · cases taken
        exact tidy
  | extracting rest =>
      cases rest with
      | nil =>
          simp only [advance] at taken
          split at taken
          · split at taken <;> cases taken
            · exact tidy.publish.put (by simp [Stage.uses]) (by simp [Stage.uses])
            · exact tidy
          · cases taken
            exact tidy
      | cons member rest =>
          simp only [advance] at taken
          split at taken <;> cases taken
          · exact tidy.put (by simp [Stage.uses]) (by simp [Stage.uses])
          · exact tidy
  | clearing raised =>
      cases taken
      cases raised <;> exact tidy.put (by simp [Stage.uses]) (fun _ => rfl)
  | dropping =>
      simp only [advance] at taken
      split at taken <;> cases taken
      · exact tidy
      · exact tidy.put (by simp [Stage.uses]) (fun _ => rfl)
  | failing | finishing =>
      cases taken
      exact tidy.put (by simp [Stage.uses]) (fun _ => rfl)
  | checking =>
      cases taken
      exact tidy
  | done _ | crashed => cases taken

theorem raised_tidy (tidy : Tidy files k source stage.uses) (taken : raised files k source stage = some (others,later)) :
    Tidy others k source later.uses := by
  cases stage <;> cases taken
  case loading again => exact tidy.put (by cases again <;> simp [Stage.uses]) (fun _ => rfl)
  case extracting rest => exact tidy
  all_goals exact tidy.mono (by simp [Stage.uses])

end

namespace World

-- Everything that a step can do.
inductive Goes {Member : Type} (tools : Tools Member) (uuid : Nat → Nat → List Char) (w : World Member) :
    Act → World Member → Prop where
  | spawn (source) : Goes tools uuid w (.spawn source) {w with processes := w.processes ++ [(source,.start)]}
  | go (k source stage result) (there : w.processes[k]? = some (source,stage))
      (taken : advance tools w.files k source stage = some result) : Goes tools uuid w (.go k) (w.step k source result)
  | write (k chunk source again content) (there : w.processes[k]? = some (source,.loading again))
      (found : w.files (.temporary source.name k (.loading again)) = some (.file content)) : Goes tools uuid w (.write k chunk)
        (w.step k source (put w.files (.temporary source.name k (.loading again)) (some (.file (content ++ chunk))),
          .loading again))
  | lost (k chunk) : Goes tools uuid w (.write k chunk) w
  | raises (k source stage result) (there : w.processes[k]? = some (source,stage))
      (taken : raised w.files k source stage = some result) : Goes tools uuid w (.raises k) (w.step k source result)
  | refuses (k left source stage result) (there : w.processes[k]? = some (source,stage))
      (taken : refused w.files k source left stage = some result) :
      Goes tools uuid w (.refuses k left) {w.step k source result with refusals := k :: w.refusals}
  | crash (k source stage) (there : w.processes[k]? = some (source,stage)) (live : stage.live = true) :
      Goes tools uuid w (.crash k) (w.step k source (w.files,.crashed))
  | sweep (name path left) (found : leftover name (path.text uuid) = true) (there : (w.files path).isSome = true) :
      Goes tools uuid w (.sweep name path left) {w with files := put w.files path left}

section
variable {Member : Type} {tools : Tools Member} {uuid : Nat → Nat → List Char} {w t : World Member} {k : Nat} {source : Source}
  {stage later : Stage Member} {others : Path → Option Node}

theorem step_processes (there : w.processes[k]? = some (source,stage)) (j : Nat) :
    (w.step k source (others,later)).processes[j]? = if j = k then some (source,later) else w.processes[j]? := by
  obtain ⟨bound,_⟩ := List.getElem?_eq_some_iff.mp there
  change (w.processes.set k (source,later))[j]? = _
  by_cases same : j = k
  · subst same
    rw [if_pos rfl,List.getElem?_set_self bound]
  · rw [if_neg same,List.getElem?_set_ne (Ne.symm same)]

theorem step_sources (there : w.processes[k]? = some (source,stage)) :
    (w.step k source (others,later)).sources = w.sources := by
  obtain ⟨bound,same⟩ := List.getElem?_eq_some_iff.mp there
  change (w.processes.set k (source,later)).map Prod.fst = w.processes.map Prod.fst
  have long : k < (w.processes.map Prod.fst).length := by simpa using bound
  have here : (w.processes.map Prod.fst)[k] = source := by simp [same]
  have unchanged := List.set_getElem_self long
  rw [here] at unchanged
  rw [List.map_set]
  exact unchanged

theorem spawn_sources (source : Source) :
    sources {w with processes := w.processes ++ [(source,.start)]} = w.sources ++ [source] := List.map_append

theorem spawn_processes {j : Nat} {one : Source} {place : Stage Member}
    (here : (w.processes ++ [(source,Stage.start)])[j]? = some (one,place)) :
    w.processes[j]? = some (one,place) ∨ w.processes[j]? = none ∧ one = source ∧ place = .start := by
  rcases Nat.lt_or_ge j w.processes.length with before | after
  · rw [List.getElem?_append_left before] at here
    exact .inl here
  · rw [List.getElem?_append_right after,List.getElem?_singleton] at here
    split at here <;> cases here
    exact .inr ⟨List.getElem?_eq_none after,rfl,rfl⟩

theorem source_mem (there : w.processes[k]? = some (source,stage)) : source ∈ w.sources :=
  List.mem_map.mpr ⟨(source,stage),List.mem_of_getElem? there,rfl⟩

-- Every file is a published directory, or one that its process may have where it is, if it
-- has removed what it should.
structure Owned (w : World Member) : Prop where
  tidy : ∀ k source stage, w.processes[k]? = some (source,stage) → k ∉ w.refusals → Tidy w.files k source stage.uses
  foreign : ∀ name k part, (∀ source stage, w.processes[k]? = some (source,stage) → source.name ≠ name) →
    w.files (.temporary name k part) = none
  published : ∀ name node, w.files (.dest name) = some node → ∃ source ∈ w.sources, source.name = name

theorem Owned.step (owned : Owned w) (there : w.processes[k]? = some (source,stage)) (frames : Frames w.files others k source)
    {refusals : List Nat} (kept : w.refusals ⊆ refusals) (tidy : k ∉ refusals → Tidy others k source later.uses) :
    Owned {w.step k source (others,later) with refusals} where
  tidy := by
    intro j one place here clean
    change (w.step k source (others,later)).processes[j]? = _ at here
    rw [step_processes there] at here
    split at here
    case isTrue same =>
      cases here
      subst same
      exact tidy clean
    case isFalse apart =>
      intro part unused
      change others _ = none
      rw [frames _ (by simp) (by simp [apart])]
      exact owned.tidy j one place here (fun member => clean (kept member)) part unused
  foreign := by
    intro name j part strange
    have still : w.files (.temporary name j part) = none := by
      apply owned.foreign
      intro one place here
      by_cases same : j = k
      · subst same
        rw [there] at here
        cases here
        exact strange source later ((step_processes there j).trans (if_pos rfl))
      · exact strange one place ((step_processes there j).trans (by rw [if_neg same,here]))
    change others _ = none
    by_cases own : j = k ∧ name = source.name
    · obtain ⟨rfl,rfl⟩ := own
      exact absurd rfl (strange source later ((step_processes there _).trans (if_pos rfl)))
    · rw [frames _ (by simp) (by intro other same; cases same; exact own ⟨rfl,rfl⟩)]
      exact still
  published := by
    intro name node found
    change ∃ one ∈ (w.step k source (others,later)).sources,one.name = name
    rw [step_sources there]
    by_cases own : name = source.name
    · exact ⟨source,source_mem there,own.symm⟩
    · change others _ = some node at found
      rw [frames _ (by simpa using own) (by simp)] at found
      exact owned.published name node found

theorem start_owned : Owned (start : World Member) where
  tidy := fun _ _ _ _ _ _ _ => rfl
  foreign := fun _ _ _ _ => rfl
  published := fun _ _ found => nomatch found

theorem Owned.spawn (owned : Owned w) (source : Source) : Owned {w with processes := w.processes ++ [(source,.start)]} where
  tidy := by
    intro j one place here clean part unused
    rcases spawn_processes here with before | ⟨absent,rfl,rfl⟩
    · exact owned.tidy j one place before clean part unused
    · apply owned.foreign
      intro other stage held
      rw [absent] at held
      cases held
  foreign := by
    intro name j part strange
    apply owned.foreign
    intro one place here
    exact strange one place (List.getElem?_append_left (List.getElem?_eq_some_iff.mp here).1 ▸ here)
  published := by
    intro name node found
    obtain ⟨other,member,same⟩ := owned.published name node found
    exact ⟨other,spawn_sources source ▸ List.mem_append_left _ member,same⟩

theorem Owned.sweep (owned : Owned w) {path : Path} (there : (w.files path).isSome) (left : Option Node) :
    Owned {w with files := put w.files path left} where
  tidy := by
    intro j one place here clean part unused
    exact put_absent (owned.tidy j one place here clean part unused) there left
  foreign := by
    intro name j part strange
    exact put_absent (owned.foreign name j part strange) there left
  published := by
    intro name node found
    change put _ _ _ _ = some node at found
    by_cases same : Path.dest name = path
    · subst same
      obtain ⟨node,before⟩ := Option.isSome_iff_exists.mp there
      exact owned.published name node before
    · rw [put_other same] at found
      exact owned.published name node found

theorem next_goes {act : Act} (taken : w.next tools uuid act = some t) : Goes tools uuid w act t := by
  cases act with
  | spawn source =>
      cases taken
      exact .spawn source
  | go k =>
      obtain ⟨⟨source,stage⟩,there,rest⟩ := Option.bind_eq_some_iff.mp taken
      obtain ⟨result,moved,rfl⟩ := Option.map_eq_some_iff.mp rest
      exact .go k source stage result there moved
  | write k chunk =>
      simp only [next] at taken
      split at taken
      case h_1 source again there =>
        split at taken
        case h_1 content found =>
          cases taken
          exact .write k chunk source again content there found
        case h_2 =>
          cases taken
          exact .lost k chunk
      case h_2 => cases taken
  | raises k =>
      obtain ⟨⟨source,stage⟩,there,rest⟩ := Option.bind_eq_some_iff.mp taken
      obtain ⟨result,moved,rfl⟩ := Option.map_eq_some_iff.mp rest
      exact .raises k source stage result there moved
  | refuses k left =>
      obtain ⟨⟨source,stage⟩,there,rest⟩ := Option.bind_eq_some_iff.mp taken
      obtain ⟨result,moved,rfl⟩ := Option.map_eq_some_iff.mp rest
      exact .refuses k left source stage result there moved
  | crash k =>
      obtain ⟨⟨source,stage⟩,there,rest⟩ := Option.bind_eq_some_iff.mp taken
      obtain ⟨live,same⟩ := Option.ite_none_right_eq_some.mp rest
      cases same
      exact .crash k source stage there live
  | sweep name path left =>
      obtain ⟨⟨found,there⟩,same⟩ := Option.ite_none_right_eq_some.mp taken
      cases same
      exact .sweep name path left found there

theorem Owned.temporary (owned : Owned w) {name : String} {part : Part} (there : (w.files (.temporary name k part)).isSome = true) :
    ∃ source stage, w.processes[k]? = some (source,stage) ∧ source.name = name ∧ (part ∈ stage.uses ∨ k ∈ w.refusals) := by
  by_contra strange
  rw [owned.foreign name k part] at there
  · cases there
  · rintro source stage here rfl
    refine strange ⟨source,stage,here,rfl,?_⟩
    by_contra neither
    obtain ⟨unused,clean⟩ := not_or.mp neither
    rw [owned.tidy k source stage here clean part unused] at there
    cases there

-- The name of a file is a source's.
theorem Owned.named (owned : Owned w) (named : ∀ source ∈ w.sources, Named source.name) {path : Path}
    (there : (w.files path).isSome = true) : Named path.name := by
  cases path with
  | dest name =>
      obtain ⟨node,held⟩ := Option.isSome_iff_exists.mp there
      obtain ⟨source,member,rfl⟩ := owned.published name node held
      exact named source member
  | temporary name process part =>
      obtain ⟨source,stage,here,rfl,_⟩ := owned.temporary there
      exact named source (source_mem here)

theorem next_owned {act : Act} (owned : Owned w) (taken : w.next tools uuid act = some t) : Owned t := by
  cases next_goes taken with
  | spawn source => exact owned.spawn source
  | go k source stage result there moved =>
      exact owned.step there (advance_frames moved) (List.Subset.refl _)
        (fun clean => advance_tidy (owned.tidy k source stage there clean) moved)
  | write k chunk source again content there found =>
      refine owned.step there (frames_refl.put _ _) (List.Subset.refl _) ?_
      intro clean
      apply (owned.tidy k source _ there clean).put (List.subset_cons_self _ _)
      cases again <;> simp [Stage.uses]
  | lost => exact owned
  | raises k source stage result there moved =>
      exact owned.step there (raised_frames moved) (List.Subset.refl _)
        (fun clean => raised_tidy (owned.tidy k source stage there clean) moved)
  | refuses k left source stage result there moved =>
      exact owned.step there (refused_frames moved) (List.subset_cons_self _ _)
        (fun clean => absurd List.mem_cons_self clean)
  | crash k source stage there live =>
      refine owned.step there frames_refl (List.Subset.refl _) ?_
      intro _ part unused
      refine absurd ?_ unused
      cases part with
      | loading again => cases again <;> simp [Stage.uses]
      | _ => simp [Stage.uses]
  | sweep name path left found there => exact owned.sweep there left

theorem next_named {act : Act} (fits : ∀ source, act = .spawn source → Named source.name)
    (named : ∀ source ∈ w.sources, Named source.name) (taken : w.next tools uuid act = some t) :
    ∀ source ∈ t.sources, Named source.name := by
  cases next_goes taken with
  | spawn source =>
      intro one member
      rw [spawn_sources,List.mem_append,List.mem_singleton] at member
      rcases member with before | rfl
      · exact named one before
      · exact fits one rfl
  | go k source stage result there | raises k source stage result there =>
      obtain ⟨others,later⟩ := result
      rw [step_sources there]
      exact named
  | write k chunk source again content there => exact step_sources there ▸ named
  | refuses k left source stage result there =>
      obtain ⟨others,later⟩ := result
      change ∀ one ∈ (w.step k source (others,later)).sources,Named one.name
      rw [step_sources there]
      exact named
  | crash k source stage there => exact step_sources there ▸ named
  | lost | sweep => exact named

end
end World

theorem uses_live {Member : Type} {stage : Stage Member} {part : Part} (used : part ∈ stage.uses) :
    stage.live = true ∨ stage = .crashed := by
  cases stage with
  | crashed => exact .inr rfl
  | done _ => cases used
  | _ => exact .inl rfl

-- In every state reached, a sweep finds what fetches of its name have that are under way,
-- were killed or could not remove a file of theirs, and nothing else.
theorem sweep_exact {Member : Type} {tools : Tools Member} {uuid : Nat → Nat → List Char} {acts : List Act} {w : World Member}
    (names : ∀ source, .spawn source ∈ acts → Named source.name)
    (ran : execute (World.next tools uuid) World.start acts = some w) {name : String} (named : Named name) {path : Path}
    (there : (w.files path).isSome = true) : leftover name (path.text uuid) = true ↔
      ∃ k source stage part, w.processes[k]? = some (source,stage) ∧ source.name = name ∧ path = .temporary name k part ∧
        (stage.live = true ∨ stage = .crashed ∨ k ∈ w.refusals) := by
  have step : ∀ act ∈ acts, ∀ s t : World Member, (s.Owned ∧ ∀ source ∈ s.sources, Named source.name) →
      World.next tools uuid s act = some t → t.Owned ∧ ∀ source ∈ t.sources, Named source.name := by
    intro act member s t before taken
    refine ⟨World.next_owned before.1 taken,World.next_named ?_ before.2 taken⟩
    rintro source rfl
    exact names source member
  have kept := execute_within step ⟨World.start_owned,fun _ member => absurd member List.not_mem_nil⟩ ran
  constructor
  · intro found
    obtain ⟨same,unpublished⟩ := leftover_own named (kept.1.named kept.2 there) found
    cases path with
    | dest other => exact absurd rfl (unpublished other)
    | temporary other k part =>
        change other = name at same
        subst same
        obtain ⟨source,stage,here,own,uses⟩ := kept.1.temporary there
        refine ⟨k,source,stage,part,here,own,rfl,?_⟩
        rcases uses with used | refusal
        · exact (uses_live used).imp_right .inl
        · exact .inr (.inr refusal)
  · rintro ⟨k,source,stage,part,_,_,rfl,_⟩
    exact leftover_temporary uuid name k part

def voice : Source := ⟨"voice","pinned",["model"]⟩

def parted : Tools (String × Bytes) :=
  ⟨fun content => if content = [7] then "pinned" else "other",
    fun content => if content = [7] then some [("model",[1]),("tokens",[2])] else none,
    fun entries member => some (entries ++ [(member.1,.file member.2)])⟩

def letters (process draw : Nat) : List Char := List.replicate (process + 1) 'a' ++ List.replicate draw 'b'

def killed : World (String × Bytes) :=
  (execute (World.next parted letters) World.start [.spawn voice,.go 0,.crash 0]).getD World.start

theorem voice_named : Named "voice" := by simp [Named]

theorem sweep_exact_killed : leftover "voice" ((Path.temporary "voice" 0 (.loading false)).text letters) = true := by
  have names : ∀ source, Act.spawn source ∈ [Act.spawn voice,.go 0,.crash 0] → Named source.name := by
    intro source member
    rcases List.mem_cons.mp member with same | others
    · cases same
      exact voice_named
    · simp at others
  have ran : execute (World.next parted letters) World.start [.spawn voice,.go 0,.crash 0] = some killed := rfl
  exact (sweep_exact names ran voice_named rfl).mpr ⟨0,voice,.crashed,.loading false,rfl,rfl,rfl,.inr (.inl rfl)⟩

end Modelship.Utils.Archives
