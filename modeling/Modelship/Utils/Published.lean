import Modelship.Utils.Archives

namespace Modelship.Utils.Archives
open Foundation

-- What is published, over runs in which no name is swept while it is fetched.

-- A directory that the archive of a source gives.
def Whole {Member : Type} (tools : Tools Member) (source : Source) (node : Node) : Prop :=
  ∃ content members entries, tools.sha256 content = source.sha256 ∧ tools.members content = some members ∧
    members.foldlM tools.extract [] = some entries ∧ node = .dir (rootOf entries)

def Complete (files : Path → Option Node) (source : Source) : Prop :=
  ∃ entries, files (.dest source.name) = some (.dir entries) ∧ source.required.all (Node.dir entries).has = true

-- The one publication is of a whole directory, where there is none or an empty one.
def Publishes {Member : Type} (tools : Tools Member) (files others : Path → Option Node) (source : Source) : Prop :=
  others (.dest source.name) = files (.dest source.name) ∨
    vacant (files (.dest source.name)) = true ∧ ∃ node, others (.dest source.name) = some node ∧ Whole tools source node

-- What a fetch has in its own files, from the check of the digest to the publication.
def Pinned {Member : Type} (tools : Tools Member) (files : Path → Option Node) (k : Nat) (source : Source) : Stage Member → Prop
  | .making => ∃ content, files (.temporary source.name k .archive) = some (.file content) ∧ tools.sha256 content = source.sha256
  | .opening => (∃ content, files (.temporary source.name k .archive) = some (.file content) ∧
      tools.sha256 content = source.sha256) ∧ files (.temporary source.name k .extraction) = some (.dir [])
  | .extracting rest => ∃ content read entries, tools.sha256 content = source.sha256 ∧
      tools.members content = some (read ++ rest) ∧ read.foldlM tools.extract [] = some entries ∧
      files (.temporary source.name k .extraction) = some (.dir entries)
  | _ => True

section
variable {Member : Type} {tools : Tools Member} {files others : Path → Option Node} {k : Nat} {source : Source}
  {stage later : Stage Member}

theorem Pinned.ended (ended : stage.live = false) : Pinned tools files k source stage := by
  cases stage with
  | done _ | crashed => trivial
  | _ => cases ended

theorem Pinned.frame (pinned : Pinned tools files k source stage)
    (same : ∀ part, others (.temporary source.name k part) = files (.temporary source.name k part)) :
    Pinned tools others k source stage := by
  cases stage with
  | making | opening | extracting rest =>
      unfold Pinned at pinned ⊢
      simpa only [same] using pinned
  | _ => trivial

theorem advance_pinned (pinned : Pinned tools files k source stage)
    (taken : advance tools files k source stage = some (others,later)) : Pinned tools others k source later := by
  cases stage with
  | verifying =>
      simp only [advance] at taken
      split at taken
      case h_1 content found =>
        split at taken
        case isTrue digest =>
          cases taken
          exact ⟨content,found,digest⟩
        case isFalse =>
          cases taken
          trivial
      case h_2 =>
        cases taken
        trivial
  | making =>
      cases taken
      obtain ⟨content,found,digest⟩ := pinned
      refine ⟨⟨content,?_,digest⟩,put_self _ _ _⟩
      rw [put_other (by simp)]
      exact found
  | opening =>
      obtain ⟨⟨content,found,digest⟩,empty⟩ := pinned
      simp only [advance,found] at taken
      split at taken
      case h_1 members listed =>
        cases taken
        exact ⟨content,[],[],digest,listed,rfl,empty⟩
      case h_2 =>
        cases taken
        trivial
  | extracting rest =>
      obtain ⟨content,read,entries,digest,listed,extracted,there⟩ := pinned
      cases rest with
      | nil =>
          simp only [advance,there] at taken
          split at taken <;> cases taken <;> trivial
      | cons member rest =>
          simp only [advance,there,entriesOf] at taken
          split at taken
          case h_1 after written =>
            cases taken
            refine ⟨content,read ++ [member],after,digest,?_,?_,put_self _ _ _⟩
            · rw [List.append_assoc]
              exact listed
            · rw [List.foldlM_append,extracted]
              simpa using written
          case h_2 =>
            cases taken
            trivial
  | start =>
      simp only [advance] at taken
      split at taken <;> cases taken <;> trivial
  | loading again =>
      simp only [advance] at taken
      split at taken <;> cases taken
      · cases again <;> trivial
      · trivial
  | fetching =>
      simp only [advance] at taken
      split at taken <;> cases taken <;> trivial
  | clearing raised =>
      cases taken
      cases raised <;> trivial
  | dropping =>
      simp only [advance] at taken
      split at taken <;> cases taken <;> trivial
  | failing | finishing | checking =>
      cases taken
      trivial
  | done _ | crashed => cases taken

theorem advance_publishes (pinned : Pinned tools files k source stage)
    (taken : advance tools files k source stage = some (others,later)) : Publishes tools files others source := by
  cases stage with
  | extracting rest =>
      obtain ⟨content,read,entries,digest,listed,extracted,there⟩ := pinned
      cases rest with
      | nil =>
          rw [List.append_nil] at listed
          simp only [advance,there] at taken
          split at taken
          case isTrue free =>
            cases taken
            refine .inr ⟨free,.dir (rootOf entries),?_,content,read,entries,digest,listed,extracted,rfl⟩
            rw [put_other (by simp),put_self]
          case isFalse =>
            cases taken
            exact .inl rfl
      | cons member rest =>
          simp only [advance] at taken
          split at taken <;> cases taken
          · exact .inl (put_other (by simp) _)
          · exact .inl rfl
  | start | loading again | fetching | dropping =>
      simp only [advance] at taken
      split at taken <;> cases taken <;> exact .inl (by simp [put])
  | verifying | opening =>
      simp only [advance] at taken
      split at taken
      · split at taken <;> cases taken <;> exact .inl (by simp [put])
      · cases taken
        exact .inl rfl
  | making | clearing _ | failing | finishing | checking =>
      cases taken
      exact .inl (by simp [put])
  | done _ | crashed => cases taken

theorem advance_done (taken : advance tools files k source stage = some (others,.done true)) : Complete others source := by
  cases stage with
  | checking =>
      simp only [advance,Option.some.injEq,Prod.mk.injEq,Stage.done.injEq] at taken
      obtain ⟨rfl,checked⟩ := taken
      obtain ⟨node,found,passes⟩ := (Option.any_eq_true ..).mp checked
      rw [Bool.and_eq_true] at passes
      cases node with
      | file content => cases passes.1
      | dir entries => exact ⟨entries,found,passes.2⟩
  | loading again =>
      simp only [advance] at taken
      split at taken
      · cases again <;> cases taken
      · cases taken
  | start | fetching | dropping =>
      simp only [advance] at taken
      split at taken <;> cases taken
  | verifying | opening =>
      simp only [advance] at taken
      split at taken
      · split at taken <;> cases taken
      · cases taken
  | extracting rest =>
      cases rest with
      | nil =>
          simp only [advance] at taken
          split at taken
          · split at taken <;> cases taken
          · cases taken
      | cons member rest =>
          simp only [advance] at taken
          split at taken <;> cases taken
  | clearing raised => cases raised <;> cases taken
  | making | failing | finishing | done _ | crashed => cases taken

theorem raised_dest (taken : raised files k source stage = some (others,later)) :
    others (.dest source.name) = files (.dest source.name) ∧ Pinned tools others k source later ∧ later ≠ .done true := by
  cases stage <;> cases taken
  case loading again => exact ⟨put_other (by simp) _,trivial,by simp⟩
  all_goals exact ⟨rfl,trivial,by simp⟩

theorem refused_dest {left : Option Node} (taken : refused files k source left stage = some (others,later)) :
    others (.dest source.name) = files (.dest source.name) ∧ Pinned tools others k source later ∧ later ≠ .done true := by
  cases stage <;> cases taken
  case clearing raised =>
    refine ⟨put_other (by simp) _,?_,?_⟩
    · cases raised <;> trivial
    · cases raised <;> simp
  all_goals exact ⟨rfl,trivial,by simp⟩

-- What an empty directory has, every directory has.
theorem has_empty {path : String} (has : (Node.dir []).has path = true) (entries : Entries) :
    (Node.dir entries).has path = true := by
  unfold Node.has at has ⊢
  dsimp only at has ⊢
  cases parts : ((split '/' path.toList).map String.ofList).filter (· ≠ "") with
  | nil =>
      rw [parts] at has
      simpa [Node.find?,Node.isDir,Node.isFile] using has
  | cons part rest =>
      rw [parts] at has
      simp [Node.find?] at has

end

section
variable {Member : Type} {tools : Tools Member} {uuid : Nat → Nat → List Char}

-- Names as the sources have them, and no sweep of a name while a fetch of it is under way.
def Fits (w : World Member) : Act → Prop
  | .spawn source => Named source.name
  | .sweep name _ _ => Named name ∧ ∀ entry ∈ w.processes, entry.1.name = name → entry.2.live = false
  | _ => True

namespace World
variable {w t : World Member} {k : Nat} {source : Source} {stage later : Stage Member} {others : Path → Option Node}

structure Sound (tools : Tools Member) (w : World Member) : Prop where
  owned : Owned w
  named : ∀ source ∈ w.sources, Named source.name
  pinned : ∀ k source stage, w.processes[k]? = some (source,stage) → Pinned tools w.files k source stage
  whole : ∀ name node, w.files (.dest name) = some node → ∃ source ∈ w.sources, source.name = name ∧ Whole tools source node
  complete : ∀ (k : Nat) source, w.processes[k]? = some (source,.done true) → Complete w.files source

-- A complete directory stays one, whether it is replaced or not.
theorem complete_kept {files : Path → Option Node} {other : Source} (complete : Complete files other)
    (frames : Frames files others k source) (publishes : Publishes tools files others source) : Complete others other := by
  obtain ⟨entries,there,required⟩ := complete
  by_cases own : other.name = source.name
  · rw [own] at there
    rcases publishes with same | ⟨free,node,found,content,members,extracted,_,_,_,rfl⟩
    · exact ⟨entries,own ▸ same.trans there,required⟩
    · refine ⟨rootOf extracted,own ▸ found,?_⟩
      rw [there] at free
      cases entries with
      | nil =>
          rw [List.all_eq_true] at required ⊢
          exact fun path member => has_empty (required path member) _
      | cons entry rest => cases free
  · refine ⟨entries,?_,required⟩
    rw [frames _ (by simpa using own) (by simp)]
    exact there

theorem Sound.step (sound : Sound tools w) (there : w.processes[k]? = some (source,stage))
    {refusals : List Nat} (owned : Owned {w.step k source (others,later) with refusals}) (frames : Frames w.files others k source)
    (pinned : Pinned tools others k source later) (publishes : Publishes tools w.files others source)
    (done : later = .done true → Complete others source) : Sound tools {w.step k source (others,later) with refusals} where
  owned := owned
  named := by
    change ∀ one ∈ (w.step k source (others,later)).sources,Named one.name
    rw [step_sources there]
    exact sound.named
  pinned := by
    intro j one place here
    change (w.step k source (others,later)).processes[j]? = _ at here
    rw [step_processes there] at here
    split at here
    case isTrue same =>
      cases here
      subst same
      exact pinned
    case isFalse apart =>
      apply (sound.pinned j one place here).frame
      intro part
      exact frames _ (by simp) (by simp [apart])
  whole := by
    intro name node found
    change ∃ one ∈ (w.step k source (others,later)).sources,one.name = name ∧ Whole tools one node
    rw [step_sources there]
    change others _ = some node at found
    by_cases own : name = source.name
    · subst own
      rcases publishes with same | ⟨_,other,published,whole⟩
      · exact sound.whole source.name node (same ▸ found)
      · rw [published] at found
        cases found
        exact ⟨source,source_mem there,rfl,whole⟩
    · rw [frames _ (by simpa using own) (by simp)] at found
      exact sound.whole name node found
  complete := by
    intro j one here
    change (w.step k source (others,later)).processes[j]? = _ at here
    rw [step_processes there] at here
    split at here
    case isTrue same =>
      cases here
      exact done rfl
    case isFalse apart => exact complete_kept (sound.complete j one here) frames publishes

theorem start_sound : Sound tools start where
  owned := start_owned
  named := fun _ member => absurd member List.not_mem_nil
  pinned := fun _ _ _ here => nomatch here
  whole := fun _ _ found => nomatch found
  complete := fun _ _ here => nomatch here

theorem Sound.spawn (sound : Sound tools w) (named : Named source.name) :
    Sound tools {w with processes := w.processes ++ [(source,.start)]} where
  owned := sound.owned.spawn source
  named := by
    intro one member
    rw [spawn_sources,List.mem_append,List.mem_singleton] at member
    rcases member with before | rfl
    · exact sound.named one before
    · exact named
  pinned := by
    intro j one place here
    rcases spawn_processes here with before | ⟨_,rfl,rfl⟩
    · exact sound.pinned j one place before
    · trivial
  whole := by
    intro name node found
    obtain ⟨one,member,whole⟩ := sound.whole name node found
    exact ⟨one,spawn_sources source ▸ List.mem_append_left _ member,whole⟩
  complete := by
    intro j one here
    rcases spawn_processes here with before | ⟨_,_,same⟩
    · exact sound.complete j one before
    · cases same

-- A sweep finds no published directory, and no file of a fetch under way.
theorem Sound.sweep (sound : Sound tools w) {name : String} {path : Path} (named : Named name)
    (quiet : ∀ entry ∈ w.processes, entry.1.name = name → entry.2.live = false) (there : (w.files path).isSome = true)
    (found : leftover name (path.text uuid) = true) (left : Option Node) :
    Sound tools {w with files := put w.files path left} := by
  obtain ⟨rfl,unpublished⟩ := leftover_own named (sound.owned.named sound.named there) found
  exact {
    owned := sound.owned.sweep there left
    named := sound.named
    pinned := by
      intro j one place here
      by_cases same : one.name = path.name
      · exact .ended (quiet (one,place) (List.mem_of_getElem? here) same)
      · apply (sound.pinned j one place here).frame
        intro part
        apply put_other
        rintro rfl
        exact same rfl
    whole := by
      intro other node published
      change put _ _ _ _ = some node at published
      rw [put_other (unpublished other).symm] at published
      exact sound.whole other node published
    complete := by
      intro j one here
      obtain ⟨entries,held,required⟩ := sound.complete j one here
      refine ⟨entries,?_,required⟩
      change put _ _ _ _ = _
      rw [put_other (unpublished one.name).symm]
      exact held}

theorem next_sound {act : Act} (sound : Sound tools w) (fits : Fits w act) (taken : w.next tools uuid act = some t) :
    Sound tools t := by
  have owned := next_owned sound.owned taken
  cases next_goes taken with
  | spawn source => exact sound.spawn fits
  | go k source stage result there moved =>
      obtain ⟨others,later⟩ := result
      have pinned := sound.pinned k source stage there
      apply sound.step there owned (advance_frames moved) (advance_pinned pinned moved) (advance_publishes pinned moved)
      intro done
      rw [done] at moved
      exact advance_done moved
  | write k chunk source again content there found =>
      have written : Sound tools {w.step k source (put w.files (.temporary source.name k (.loading again))
          (some (.file (content ++ chunk))),.loading again) with refusals := w.refusals} :=
        sound.step there owned (frames_refl.put _ _) trivial (.inl (put_other (by simp) _)) (fun done => by cases done)
      exact written
  | lost => exact sound
  | raises k source stage result there moved =>
      obtain ⟨dest,pinned,undone⟩ := raised_dest moved
      exact sound.step there owned (raised_frames moved) pinned (.inl dest) (fun done => absurd done undone)
  | refuses k left source stage result there moved =>
      obtain ⟨dest,pinned,undone⟩ := refused_dest moved
      exact sound.step there owned (refused_frames moved) pinned (.inl dest) (fun done => absurd done undone)
  | crash k source stage there live =>
      refine sound.step there owned frames_refl trivial (.inl rfl) ?_
      intro done
      cases done
  | sweep name path left found there => exact sound.sweep fits.1 fits.2 there found left

end World

-- In every run that sweeps no name while it is fetched, what is published is a pinned
-- archive's whole content, and what a fetch has returned keeps the paths it requires.
theorem published_whole {acts : List Act} {w : World Member} (meets : Meets (World.next tools uuid) Fits World.start acts)
    (ran : execute (World.next tools uuid) World.start acts = some w) :
    (∀ name node, w.files (.dest name) = some node → ∃ source ∈ w.sources, source.name = name ∧ Whole tools source node) ∧
      ∀ (k : Nat) source, w.processes[k]? = some (source,.done true) → Complete w.files source := by
  have sound := meets_invariant (fun s act t kept fits taken => World.next_sound kept fits taken) World.start_sound meets ran
  exact ⟨sound.whole,sound.complete⟩

end

def fetching : List Act := [.spawn voice,.go 0,.write 0 [7]] ++ List.replicate 12 (.go 0)

def fetched : World (String × Bytes) := (execute (World.next parted letters) World.start fetching).getD World.start

theorem fetching_fits : Meets (World.next parted letters) Fits World.start fetching := by
  apply meets_always
  intro act member s
  simp only [fetching,List.cons_append,List.nil_append,List.mem_cons,List.mem_replicate] at member
  rcases member with rfl | rfl | rfl | ⟨_,rfl⟩
  · exact voice_named
  all_goals trivial

theorem fetching_ran : execute (World.next parted letters) World.start fetching = some fetched := rfl

theorem published_whole_voice : ∃ source ∈ fetched.sources, source.name = "voice" ∧
    Whole parted source (.dir [("model",.file [1]),("tokens",.file [2])]) :=
  (published_whole fetching_fits fetching_ran).1 "voice" _ rfl

-- A sweep between two members loses the first: what is published then is not whole.
def torn : List Act :=
  [.spawn voice,.go 0,.write 0 [7]] ++ List.replicate 6 (.go 0) ++ [.sweep "voice" (.temporary "voice" 0 .extraction) none] ++
    List.replicate 2 (.go 0)

example : (execute (World.next parted letters) World.start torn).bind (fun w => w.files (.dest "voice")) =
    some (.dir [("tokens",.file [2])]) := rfl

end Modelship.Utils.Archives
