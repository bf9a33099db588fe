import Mathlib.Data.List.Nodup
import Mathlib.Data.List.Perm.Subperm
import Modelship.Deploy.Queue

namespace Modelship.Deploy.Queue
open Foundation Function

-- The drain tasks: one for each gateway in the table, none besides, each with the request
-- its gateway runs; and a gateway whose queue holds a request has one.
structure Staffed (s : Board) : Prop where
  tasked : ∀ gateway task, s.drainers gateway = some task ↔ ∃ point, s.tasks task = some ⟨gateway,point⟩
  carried : ∀ task gateway point, s.tasks task = some ⟨gateway,point⟩ → s.running gateway = point.entry
  idle : ∀ gateway, s.drainers gateway = none → s.running gateway = none
  fresh : ∀ task, s.spawned ≤ task → s.tasks task = none
  woken : ∀ gateway, s.queues gateway ≠ [] → s.drainers gateway ≠ none
  recovers : ∀ task gateway, s.tasks task = some ⟨gateway,.recovering⟩ → s.recovery ≠ .absent

-- What says where a request is: its gateway, whether it has never left the queue to run,
-- and whether it is over.
structure View where
  gateway : String
  queued : Bool
  done : Bool
  deriving DecidableEq

def Entry.view (held : Entry) : View := ⟨held.gateway,held.state = .queued,held.done.isSome⟩

def Board.view (s : Board) (entry : Nat) : Option View := s.entries[entry]?.map Entry.view

-- Each list of the board holds the requests of its view and no other; a gateway's requests
-- start in the order of their submission; and a future is set once.
structure Filed (s : Board) : Prop where
  queued : ∀ gateway entry, entry ∈ s.queues gateway ↔ s.view entry = some ⟨gateway,true,false⟩
  running : ∀ gateway entry, s.running gateway = some entry ↔ s.view entry = some ⟨gateway,false,false⟩
  began : ∀ gateway entry, entry ∈ s.started gateway ↔ ∃ done, s.view entry = some ⟨gateway,false,done⟩
  dropped : ∀ entry, entry ∈ s.dropped ↔ ∃ gateway, s.view entry = some ⟨gateway,true,true⟩
  commits : ∀ entry ∈ s.commits, ∃ gateway done, s.view entry = some ⟨gateway,false,done⟩
  counted : ∀ entry, s.settled.count entry = if (s.view entry).any View.done then 1 else 0
  ordered : ∀ gateway, (s.started gateway ++ s.queues gateway).Pairwise (· < ·)
  faultless : s.faults = 0

structure Valid (s : Board) : Prop where
  staffed : Staffed s
  filed : Filed s

theorem start_valid : Valid start := by
  constructor <;> constructor <;> simp [start,Board.view]

theorem view_edit (s : Board) (entry other : Nat) (change : Entry → Entry) :
    (s.edit entry change).view other =
      if entry = other then (s.entries[other]?.map change).map Entry.view else s.view other := by
  unfold Board.view Board.edit
  rw [List.getElem?_modify]
  split <;> simp

-- A change that tells nothing of where a request is.
theorem view_quiet {s : Board} {entry : Nat} {change : Entry → Entry}
    (quiet : ∀ held, s.entries[entry]? = some held → (change held).view = held.view) (other : Nat) :
    (s.edit entry change).view other = s.view other := by
  rw [view_edit]
  split
  case isTrue same =>
    subst same
    cases found : s.entries[entry]? with
    | none => simp [Board.view,found]
    | some held => simp [Board.view,found,quiet held found]
  case isFalse => rfl

theorem Filed.frame {s t : Board} (filed : Filed s) (view : ∀ entry, t.view entry = s.view entry)
    (queues : t.queues = s.queues) (running : t.running = s.running) (started : t.started = s.started)
    (dropped : t.dropped = s.dropped) (commits : ∀ entry ∈ t.commits, ∃ gateway done, s.view entry = some ⟨gateway,false,done⟩)
    (settled : t.settled = s.settled) (faults : t.faults = s.faults) : Filed t := by
  obtain ⟨queued,runs,began,drops,_,counted,ordered,faultless⟩ := filed
  constructor
  · simpa only [queues,view] using queued
  · simpa only [running,view] using runs
  · simpa only [started,view] using began
  · simpa only [dropped,view] using drops
  · simpa only [view] using commits
  · simpa only [settled,view] using counted
  · simpa only [started,queues] using ordered
  · rw [faults]; exact faultless

theorem Staffed.frame {s t : Board} (staffed : Staffed s) (queues : t.queues = s.queues) (running : t.running = s.running)
    (drainers : t.drainers = s.drainers) (tasks : t.tasks = s.tasks) (spawned : t.spawned = s.spawned)
    (recovery : t.recovery = .absent → s.recovery = .absent) : Staffed t := by
  obtain ⟨tasked,carried,idle,fresh,woken,recovers⟩ := staffed
  constructor
  · simpa only [drainers,tasks] using tasked
  · simpa only [tasks,running] using carried
  · simpa only [drainers,running] using idle
  · simpa only [spawned,tasks] using fresh
  · simpa only [queues,drainers] using woken
  · intro task gateway here absent
    rw [tasks] at here
    exact recovers task gateway here (recovery absent)

theorem Valid.edits {s : Board} (valid : Valid s) {entry : Nat} {change : Entry → Entry}
    (quiet : ∀ held, s.entries[entry]? = some held → (change held).view = held.view) : Valid (s.edit entry change) :=
  ⟨valid.staffed.frame rfl rfl rfl rfl rfl (·),
    valid.filed.frame (view_quiet quiet) rfl rfl rfl rfl valid.filed.commits rfl rfl⟩

-- A request that has begun is marked with another state of its run.
theorem Valid.marks {s : Board} (valid : Valid s) {entry : Nat} {gateway : String} {done : Bool} {state : EntryState}
    (begun : s.view entry = some ⟨gateway,false,done⟩) (other : state ≠ .queued) : Valid (s.mark entry state) := by
  apply valid.edits
  intro held found
  simp only [Board.view,found,Option.map_some,Option.some.injEq] at begun
  simp only [Entry.view,View.mk.injEq,decide_eq_false_iff_not] at begun
  simp [Entry.view,other,begun.2.1]

theorem runs_begun {s : Board} (valid : Valid s) {id gateway : String} {entry : Nat} {held : Entry}
    (runs : s.runs id gateway = some (entry,held)) : s.view entry = some ⟨gateway,false,false⟩ := by
  simp only [Board.runs,Option.bind_eq_some_iff] at runs
  obtain ⟨other,running,found,_,same⟩ := runs
  split at same
  · cases same
    exact (valid.filed.running gateway _).mp running
  · cases same

theorem rollingBack_valid {s : Board} (valid : Valid s) (id gateway : String) : Valid (rollingBack s id gateway) := by
  unfold rollingBack
  cases runs : s.runs id gateway with
  | none => exact valid
  | some pair => exact valid.marks (runs_begun valid runs) (by decide)

theorem switch_valid {s : Board} (valid : Valid s) (id gateway : String) : Valid (switch s id gateway) := by
  unfold switch
  cases runs : s.runs id gateway with
  | none => exact valid
  | some pair =>
      dsimp only
      split
      · exact valid
      · exact valid.marks (runs_begun valid runs) (by decide)

theorem commit_valid {s : Board} (valid : Valid s) (id gateway : String) : Valid (commit s id gateway) := by
  unfold commit
  cases runs : s.runs id gateway with
  | none => exact valid
  | some pair =>
      have begun := runs_begun valid runs
      have marked := valid.marks begun (by decide : EntryState.committing ≠ .queued)
      dsimp only
      split
      · exact valid
      · refine ⟨marked.staffed.frame rfl rfl rfl rfl rfl (·),marked.filed.frame (fun _ => rfl) rfl rfl rfl rfl ?_ rfl rfl⟩
        intro entry member
        rcases List.mem_append.mp member with old | new
        · exact marked.filed.commits entry old
        · rw [List.mem_singleton.mp new]
          have running : s.running gateway = some pair.1 := (valid.filed.running gateway pair.1).mpr begun
          exact ⟨gateway,false,(marked.filed.running gateway pair.1).mp running⟩

theorem committed_valid {s t : Board} (valid : Valid s) {index : Nat} {ok : Bool}
    (taken : committed s index ok = some t) : Valid t := by
  unfold committed at taken
  cases found : s.commits[index]? with
  | none => simp [found] at taken
  | some entry =>
      have shorter : Valid {s with commits := s.commits.eraseIdx index} := by
        refine ⟨valid.staffed.frame rfl rfl rfl rfl rfl (·),valid.filed.frame (fun _ => rfl) rfl rfl rfl rfl ?_ rfl rfl⟩
        intro other member
        exact valid.filed.commits other (List.mem_of_mem_eraseIdx member)
      obtain ⟨gateway,done,begun⟩ := valid.filed.commits entry (List.mem_of_getElem? found)
      simp only [found,Option.map_some,Option.some.injEq] at taken
      subst taken
      split
      · exact shorter.marks begun (by decide)
      · exact shorter

theorem wait_valid {s : Board} (valid : Valid s) (id : String) : Valid (wait s id) := by
  unfold wait
  split
  · exact valid
  · exact ⟨valid.staffed.frame rfl rfl rfl rfl rfl (·),
      valid.filed.frame (fun _ => rfl) rfl rfl rfl rfl valid.filed.commits rfl rfl⟩

theorem waited_valid {s t : Board} (valid : Valid s) {index : Nat} (taken : waited s index = some t) : Valid t := by
  obtain ⟨pair,_,rfl⟩ := Option.map_eq_some_iff.mp taken
  exact ⟨valid.staffed.frame rfl rfl rfl rfl rfl (·),
    valid.filed.frame (fun _ => rfl) rfl rfl rfl rfl valid.filed.commits rfl rfl⟩

theorem view_known {s : Board} {entry : Nat} {view : View} (known : s.view entry = some view) : entry < s.entries.length := by
  obtain ⟨held,found,_⟩ := Option.map_eq_some_iff.mp known
  exact (List.getElem?_eq_some_iff.mp found).1

theorem Filed.earlier {s : Board} (filed : Filed s) {gateway : String} {entry : Nat}
    (member : entry ∈ s.started gateway ++ s.queues gateway) : entry < s.entries.length := by
  rcases List.mem_append.mp member with began | queued
  · obtain ⟨done,known⟩ := (filed.began gateway entry).mp began
    exact view_known known
  · exact view_known ((filed.queued gateway entry).mp queued)

-- A submitted request goes to the end of its gateway's queue.
theorem Filed.submits {s t : Board} (filed : Filed s) {id gateway : String}
    (entries : t.entries = s.entries ++ [⟨id,gateway,.queued,false,none⟩])
    (queues : t.queues = update s.queues gateway (s.queues gateway ++ [s.entries.length]))
    (running : t.running = s.running) (started : t.started = s.started) (dropped : t.dropped = s.dropped)
    (commits : t.commits = s.commits) (settled : t.settled = s.settled) (faults : t.faults = s.faults) : Filed t := by
  have old : ∀ entry, entry ≠ s.entries.length → t.view entry = s.view entry := by
    intro entry different
    simp only [Board.view,entries,List.getElem?_append,List.getElem?_singleton]
    split
    · rfl
    · rw [if_neg (by omega),List.getElem?_eq_none (by omega)]
  have new : t.view s.entries.length = some ⟨gateway,true,false⟩ := by
    simp [Board.view,entries,Entry.view]
  have blank : s.view s.entries.length = none := by simp [Board.view]
  have seen : ∀ entry gateway done, t.view entry = some ⟨gateway,false,done⟩ ↔ s.view entry = some ⟨gateway,false,done⟩ := by
    intro entry other done
    by_cases same : entry = s.entries.length
    · subst same; simp [new,blank]
    · rw [old entry same]
  have ⟨queued,runs,began,drops,marked,counted,ordered,faultless⟩ := filed
  constructor
  · intro other entry
    rw [queues]
    by_cases same : entry = s.entries.length <;> by_cases here : other = gateway
    · subst same here; simp [new]
    · subst same
      rw [update_of_ne here,queued,blank,new]
      simp [Ne.symm here]
    · subst here
      rw [update_self,List.mem_append,queued,old entry same]
      simp [same]
    · rw [update_of_ne here,queued,old entry same]
  · intro other entry
    rw [running,seen]
    exact runs other entry
  · intro other entry
    simp only [started,seen]
    exact began other entry
  · intro entry
    rw [dropped,drops]
    by_cases same : entry = s.entries.length
    · subst same; simp [new,blank]
    · rw [old entry same]
  · intro entry member
    rw [commits] at member
    simp only [seen]
    exact marked entry member
  · intro entry
    rw [settled,counted]
    by_cases same : entry = s.entries.length
    · subst same; simp [new,blank]
    · rw [old entry same]
  · intro other
    rw [started,queues]
    by_cases here : other = gateway
    · subst here
      rw [update_self,← List.append_assoc,List.pairwise_append]
      refine ⟨ordered other,List.pairwise_singleton _ _,?_⟩
      intro entry member last final
      rw [List.mem_singleton.mp final]
      exact filed.earlier member
    · rw [update_of_ne here]
      exact ordered other
  · rw [faults]
    exact faultless

theorem Staffed.woken_by {s t : Board} (staffed : Staffed s) (gateway : String) (present : s.drainers gateway ≠ none)
    (queues : ∀ other, other ≠ gateway → t.queues other = s.queues other) (running : t.running = s.running)
    (drainers : t.drainers = s.drainers) (tasks : t.tasks = s.tasks) (spawned : t.spawned = s.spawned)
    (recovery : t.recovery = .absent → s.recovery = .absent) : Staffed t := by
  obtain ⟨tasked,carried,idle,fresh,woken,recovers⟩ := staffed
  constructor
  · simpa only [drainers,tasks] using tasked
  · simpa only [tasks,running] using carried
  · simpa only [drainers,running] using idle
  · simpa only [spawned,tasks] using fresh
  · intro other full
    rw [drainers]
    by_cases here : other = gateway
    · rw [here]; exact present
    · rw [queues other here] at full
      exact woken other full
  · intro task other here absent
    rw [tasks] at here
    exact recovers task other here (recovery absent)

-- A new drain task for a gateway that has none.
theorem Staffed.spawns {s : Board} {gateway : String} (staffed : Staffed {s with queues := update s.queues gateway []})
    (absent : s.drainers gateway = none) : Staffed (s.spawn gateway) := by
  obtain ⟨tasked,carried,idle,fresh,woken,recovers⟩ := staffed
  dsimp only at tasked carried idle fresh woken recovers
  have free := fresh s.spawned (Nat.le_refl _)
  constructor
  · intro other task
    simp only [Board.spawn,update_apply]
    by_cases here : other = gateway <;> by_cases new : task = s.spawned
    · subst here new; simp
    · subst here
      simp only [if_true,if_neg new,Option.some.injEq,Ne.symm new,false_iff]
      rw [← tasked,absent]
      simp
    · subst new
      simp only [if_neg here,if_true,Option.some.injEq,Drainer.mk.injEq,Ne.symm here,false_and,exists_false,iff_false]
      rw [tasked,free]
      simp
    · simp only [if_neg here,if_neg new]
      exact tasked other task
  · intro task other point found
    simp only [Board.spawn,update_apply] at found
    split at found
    · cases found
      exact idle _ absent
    · exact carried task other point found
  · intro other none_
    simp only [Board.spawn,update_apply] at none_
    split at none_
    · cases none_
    · exact idle other none_
  · intro task later
    have later : s.spawned + 1 ≤ task := later
    simp only [Board.spawn]
    rw [update_of_ne (by omega)]
    exact fresh task (by omega)
  · intro other full
    simp only [Board.spawn,update_apply]
    split
    · simp
    case isFalse here =>
      apply woken other
      rw [update_of_ne here]
      exact full
  · intro task other here
    simp only [Board.spawn,update_apply] at here
    split at here
    · cases here
    · exact recovers task other here

theorem submit_valid {s : Board} (valid : Valid s) (id gateway : String) : Valid (submit s id gateway).1 := by
  unfold submit
  dsimp only
  cases present : s.drainers gateway with
  | some task =>
      refine ⟨valid.staffed.woken_by gateway (by simp [present]) ?_ rfl rfl rfl rfl (·),
        valid.filed.submits rfl rfl rfl rfl rfl rfl rfl rfl⟩
      intro other different
      exact update_of_ne different _ _
  | none =>
      refine ⟨Staffed.spawns ?_ present,valid.filed.submits rfl rfl rfl rfl rfl rfl rfl rfl⟩
      have empty : s.queues gateway = [] := by
        by_contra full
        exact valid.staffed.woken gateway full present
      refine valid.staffed.frame ?_ rfl rfl rfl rfl (·)
      dsimp only
      rw [update_idem,← empty,update_eq_self]

theorem lookup_found {s : Board} {id : String} {entry : Nat} {held : Entry} (found : s.lookup id = some (entry,held)) :
    s.entries[entry]? = some held := by
  simp only [Board.lookup,Option.bind_eq_some_iff,Option.map_eq_some_iff,Prod.mk.injEq] at found
  obtain ⟨other,_,other',found,rfl,rfl⟩ := found
  exact found

theorem setResult_open {s : Board} {entry : Nat} {held : Entry} (found : s.entries[entry]? = some held)
    (unset : held.done = none) (report : Report) :
    s.setResult entry report =
      some {s.edit entry (fun held => {held with done := some report}) with settled := s.settled ++ [entry]} := by
  simp [Board.setResult,found,unset]

-- A request that is not over takes its outcome, out of the queue or out of its run.
theorem Filed.settles {s t : Board} (filed : Filed s) {entry : Nat} {gateway : String} {queued : Bool} {report : Report}
    (seen : s.view entry = some ⟨gateway,queued,false⟩)
    (entries : t.entries = s.entries.modify entry (fun held => {held with done := some report}))
    (queues : ∀ other, t.queues other = (s.queues other).erase entry)
    (running : ∀ other, t.running other = if queued = false ∧ other = gateway then none else s.running other)
    (started : t.started = s.started) (dropped : t.dropped = if queued then s.dropped ++ [entry] else s.dropped)
    (commits : t.commits = s.commits) (settled : t.settled = s.settled ++ [entry]) (faults : t.faults = s.faults) :
    Filed t := by
  have other_view : ∀ other, other ≠ entry → t.view other = s.view other := by
    intro other different
    simp [Board.view,entries,Ne.symm different]
  have this_view : t.view entry = some ⟨gateway,queued,true⟩ := by
    obtain ⟨held,found,view⟩ := Option.map_eq_some_iff.mp seen
    simp only [Entry.view,View.mk.injEq] at view
    simp [Board.view,entries,found,Entry.view,view]
  have ⟨inQueue,runs,began,drops,marked,counted,ordered,faultless⟩ := filed
  have once : ∀ other, (s.queues other).Nodup := by
    intro other
    have all := List.Pairwise.imp Nat.ne_of_lt (ordered other)
    exact (List.nodup_append.mp all).2.1
  constructor
  · intro other request
    rw [queues,(once other).mem_erase_iff,inQueue]
    by_cases same : request = entry
    · subst same; simp [this_view]
    · rw [other_view request same]; simp [same]
  · intro other request
    rw [running]
    by_cases same : request = entry
    · subst same
      rw [this_view]
      split
      · simp
      case isFalse still =>
        rw [runs,seen]
        simp only [Option.some.injEq,View.mk.injEq,Bool.true_eq_false,and_false,iff_false]
        intro ⟨here,ran,_⟩
        exact still ⟨ran,here.symm⟩
    · rw [other_view request same,← runs]
      split
      case isTrue mine =>
        obtain ⟨rfl,rfl⟩ := mine
        rw [(runs other entry).mpr seen]
        simp [Ne.symm same]
      case isFalse => rfl
  · intro other request
    rw [started,began]
    by_cases same : request = entry
    · subst same; simp [this_view,seen]
    · rw [other_view request same]
  · intro request
    rw [dropped]
    by_cases same : request = entry
    · subst same
      have before := drops request
      cases queued <;> simp_all
    · rw [other_view request same]
      cases queued <;> simp [same,drops]
  · intro request member
    rw [commits] at member
    obtain ⟨other,done,known⟩ := marked request member
    by_cases same : request = entry
    · subst same
      rw [seen] at known
      cases known
      exact ⟨gateway,true,this_view⟩
    · rw [other_view request same]
      exact ⟨other,done,known⟩
  · intro request
    rw [settled,List.count_append,counted]
    by_cases same : request = entry
    · subst same; simp [this_view,seen]
    · simp [other_view request same,Ne.symm same]
  · intro other
    rw [started,queues]
    refine (ordered other).sublist ?_
    exact List.Sublist.append (List.Sublist.refl _) List.erase_sublist
  · rw [faults]
    exact faultless

theorem cancel_valid {s : Board} (valid : Valid s) (id : String) : Valid (cancel s id).1 := by
  unfold cancel
  cases looked : s.lookup id with
  | none => exact valid
  | some pair =>
      obtain ⟨entry,held⟩ := pair
      have found := lookup_found looked
      dsimp only
      split
      · exact valid
      case isFalse open_ =>
      have unset : held.done = none := by simpa using open_
      split
      case isTrue queued =>
        have seen : s.view entry = some ⟨held.gateway,true,false⟩ := by
          simp [Board.view,found,Entry.view,queued,unset]
        have member := (valid.filed.queued held.gateway entry).mpr seen
        rw [if_neg (not_not.mpr member),setResult_open (s := {s with
          queues := update s.queues held.gateway ((s.queues held.gateway).erase entry)
          dropped := s.dropped ++ [entry]}) found unset]
        have present := valid.staffed.woken held.gateway (List.ne_nil_of_mem member)
        refine ⟨valid.staffed.woken_by held.gateway present ?_ rfl rfl rfl rfl (·),
          valid.filed.settles seen rfl ?_ ?_ rfl rfl rfl rfl rfl⟩
        · intro other different
          exact update_of_ne different _ _
        · intro other
          by_cases here : other = held.gateway
          · subst here
            exact update_self _ _ _
          · have absent : entry ∉ s.queues other := by
              rw [valid.filed.queued,seen]
              simp [Ne.symm here]
            rw [List.erase_of_not_mem absent]
            exact update_of_ne here _ _
        · intro other
          simp [Board.edit]
      · split
        · exact valid
        · split
          · exact valid
          · apply valid.edits
            intro held _
            rfl

theorem Staffed.moves {s t : Board} (staffed : Staffed s) {task : Nat} {gateway : String} {before after : Point}
    (here : s.tasks task = some ⟨gateway,before⟩) (tasks : t.tasks = update s.tasks task (some ⟨gateway,after⟩))
    (running : t.running = update s.running gateway after.entry) (drainers : t.drainers = s.drainers)
    (spawned : t.spawned = s.spawned) (queues : ∀ other, t.queues other ≠ [] → s.queues other ≠ [])
    (recovery : t.recovery = s.recovery) (ready : after = .recovering → s.recovery ≠ .absent) : Staffed t := by
  obtain ⟨tasked,carried,idle,fresh,woken,recovers⟩ := staffed
  have listed : s.drainers gateway = some task := (tasked gateway task).mpr ⟨before,here⟩
  constructor
  · intro other number
    rw [drainers,tasks,update_apply,tasked]
    split
    case isTrue same =>
      subst same
      rw [here]
      simp
    case isFalse => exact Iff.rfl
  · intro number other point found
    rw [tasks,update_apply] at found
    rw [running]
    split at found
    · cases found
      exact update_self _ _ _
    case isFalse different =>
      have elsewhere : other ≠ gateway := by
        intro same
        subst same
        have again := (tasked other number).mpr ⟨point,found⟩
        rw [listed] at again
        exact different (Option.some.inj again).symm
      rw [update_of_ne elsewhere]
      exact carried number other point found
  · intro other absent
    rw [drainers] at absent
    have elsewhere : other ≠ gateway := by
      intro same
      rw [same,listed] at absent
      cases absent
    rw [running,update_of_ne elsewhere]
    exact idle other absent
  · intro number later
    rw [spawned] at later
    have different : number ≠ task := by
      intro same
      have gone := fresh number later
      rw [same,here] at gone
      cases gone
    rw [tasks,update_of_ne different]
    exact fresh number later
  · intro other full
    rw [drainers]
    exact woken other (queues other full)
  · intro number other found
    rw [tasks,update_apply] at found
    rw [recovery]
    split at found
    · cases found
      exact ready rfl
    · exact recovers number other found

theorem Staffed.leaves {s : Board} (staffed : Staffed s) {task : Nat} {gateway : String} {point : Point}
    (here : s.tasks task = some ⟨gateway,point⟩) (unheld : point.entry = none) (empty : s.queues gateway = []) :
    Staffed (s.leave task gateway) := by
  obtain ⟨tasked,carried,idle,fresh,woken,recovers⟩ := staffed
  have listed : s.drainers gateway = some task := (tasked gateway task).mpr ⟨point,here⟩
  constructor
  · intro other number
    simp only [Board.leave,update_apply]
    by_cases same : number = task <;> by_cases mine : other = gateway
    · simp [same,mine]
    · subst same
      simp only [if_neg mine,if_true]
      rw [tasked,here]
      simp [Ne.symm mine]
    · subst mine
      simp only [if_true,if_neg same]
      rw [← tasked,listed]
      simp [Ne.symm same]
    · simp only [if_neg mine,if_neg same]
      exact tasked other number
  · intro number other found_ found
    simp only [Board.leave,update_apply] at found
    split at found
    · cases found
    · exact carried number other found_ found
  · intro other absent
    simp only [Board.leave,update_apply] at absent
    split at absent
    case isTrue mine =>
      subst mine
      exact (carried task other point here).trans unheld
    case isFalse => exact idle other absent
  · intro number later
    simp only [Board.leave,update_apply]
    split
    · rfl
    · exact fresh number later
  · intro other full
    have elsewhere : other ≠ gateway := by
      intro same
      subst same
      exact full empty
    simp only [Board.leave]
    rw [update_of_ne elsewhere]
    exact woken other full
  · intro number other found
    simp only [Board.leave,update_apply] at found
    split at found
    · cases found
    · exact recovers number other found

-- The end of a request's run: nothing raises, and its task goes on.
theorem finish_open {s : Board} (valid : Valid s) {task : Nat} {gateway : String} {point : Point} {entry : Nat}
    (here : s.tasks task = some ⟨gateway,point⟩) (holds : point.entry = some entry) (report : Report) :
    finish s task gateway entry report = Board.move {s.edit entry (fun held => {held with done := some report}) with
      running := update s.running gateway none
      settled := s.settled ++ [entry]} task gateway .turning := by
  have running : s.running gateway = some entry := (valid.staffed.carried task gateway point here).trans holds
  obtain ⟨held,found,view⟩ := Option.map_eq_some_iff.mp ((valid.filed.running gateway entry).mp running)
  have unset : held.done = none := by
    simp only [Entry.view,View.mk.injEq] at view
    simpa using view.2.2
  have countable : report.actions.any (·.2 = 0) = false := by
    rw [List.any_eq_false]
    intro action member
    simp [report.counted action member]
  have set := setResult_open (s := {s with running := update s.running gateway none}) found unset report
  simp only [finish,running,countable,set]
  rfl

theorem finish_valid {s : Board} (valid : Valid s) {task : Nat} {gateway : String} {point : Point} {entry : Nat}
    (here : s.tasks task = some ⟨gateway,point⟩) (holds : point.entry = some entry) (report : Report) :
    Valid (finish s task gateway entry report) := by
  have running : s.running gateway = some entry := (valid.staffed.carried task gateway point here).trans holds
  have seen := (valid.filed.running gateway entry).mp running
  rw [finish_open valid here holds]
  refine ⟨valid.staffed.moves here rfl rfl rfl rfl (fun _ full => full) rfl nofun,
    valid.filed.settles seen rfl ?_ ?_ rfl rfl rfl rfl rfl⟩
  · intro other
    have unqueued : entry ∉ s.queues other := by
      rw [valid.filed.queued,seen]
      simp
    rw [List.erase_of_not_mem unqueued]
    rfl
  · intro other
    simp only [true_and]
    exact update_apply _ _ _ _

-- The head of a gateway's queue starts.
theorem Filed.starts {s t : Board} (filed : Filed s) {gateway : String} {entry : Nat} {rest : List Nat}
    (head : s.queues gateway = entry :: rest) (free : s.running gateway = none)
    (entries : t.entries = s.entries.modify entry (fun held => {held with state := .applying}))
    (queues : t.queues = update s.queues gateway rest) (running : t.running = update s.running gateway (some entry))
    (started : t.started = update s.started gateway (s.started gateway ++ [entry])) (dropped : t.dropped = s.dropped)
    (commits : t.commits = s.commits) (settled : t.settled = s.settled) (faults : t.faults = s.faults) : Filed t := by
  have seen : s.view entry = some ⟨gateway,true,false⟩ := by
    apply (filed.queued gateway entry).mp
    simp [head]
  have other_view : ∀ other, other ≠ entry → t.view other = s.view other := by
    intro other different
    simp [Board.view,entries,Ne.symm different]
  have this_view : t.view entry = some ⟨gateway,false,false⟩ := by
    obtain ⟨held,found,view⟩ := Option.map_eq_some_iff.mp seen
    simp only [Entry.view,View.mk.injEq] at view
    simp [Board.view,entries,found,Entry.view,view]
  have ⟨inQueue,runs,began,drops,marked,counted,ordered,faultless⟩ := filed
  have behind : entry ∉ rest := by
    have all := List.Pairwise.imp Nat.ne_of_lt (ordered gateway)
    rw [head] at all
    exact (List.nodup_cons.mp (List.nodup_append.mp all).2.1).1
  constructor
  · intro other request
    rw [queues]
    by_cases same : request = entry <;> by_cases mine : other = gateway
    · subst same mine
      simp [this_view,behind]
    · subst same
      rw [update_of_ne mine,inQueue,seen,this_view]
      simp [Ne.symm mine]
    · subst mine
      rw [update_self,other_view request same,← inQueue,head]
      simp [same]
    · rw [update_of_ne mine,inQueue,other_view request same]
  · intro other request
    rw [running]
    by_cases same : request = entry <;> by_cases mine : other = gateway
    · subst same mine
      simp [this_view]
    · subst same
      rw [update_of_ne mine,runs,seen,this_view]
      simp [Ne.symm mine]
    · subst mine
      rw [update_self,other_view request same,← runs,free]
      simp [Ne.symm same]
    · rw [update_of_ne mine,runs,other_view request same]
  · intro other request
    rw [started]
    by_cases same : request = entry <;> by_cases mine : other = gateway
    · subst same mine
      simp [this_view]
    · subst same
      rw [update_of_ne mine,began,seen,this_view]
      simp [Ne.symm mine]
    · subst mine
      rw [update_self,other_view request same,← began]
      simp [same]
    · rw [update_of_ne mine,began,other_view request same]
  · intro request
    rw [dropped,drops]
    by_cases same : request = entry
    · subst same; simp [seen,this_view]
    · rw [other_view request same]
  · intro request member
    rw [commits] at member
    by_cases same : request = entry
    · subst same
      exact ⟨gateway,false,this_view⟩
    · rw [other_view request same]
      exact marked request member
  · intro request
    rw [settled,counted]
    by_cases same : request = entry
    · subst same; simp [seen,this_view]
    · rw [other_view request same]
  · intro other
    rw [started,queues]
    by_cases mine : other = gateway
    · subst mine
      rw [update_self,update_self,List.append_assoc,List.singleton_append,← head]
      exact ordered other
    · rw [update_of_ne mine,update_of_ne mine]
      exact ordered other
  · rw [faults]
    exact faultless

theorem Valid.turns {s : Board} (valid : Valid s) {task : Nat} {gateway : String}
    (here : s.tasks task = some ⟨gateway,.turning⟩) {entry : Nat} {rest : List Nat} (head : s.queues gateway = entry :: rest) :
    Valid (Board.move {s.mark entry .applying with
      queues := update s.queues gateway rest
      running := update s.running gateway (some entry)
      started := update s.started gateway (s.started gateway ++ [entry])} task gateway (.applying entry)) := by
  have free : s.running gateway = none := valid.staffed.carried task gateway .turning here
  refine ⟨valid.staffed.moves here rfl rfl rfl rfl ?_ rfl nofun,valid.filed.starts head free rfl rfl rfl rfl rfl rfl rfl rfl⟩
  intro other full
  by_cases mine : other = gateway
  · subst mine; simp [head]
  · simpa [Board.move,mine] using full

-- A task moves on without a change of its request.
theorem Valid.moves {s : Board} (valid : Valid s) {task : Nat} {gateway : String} {before after : Point}
    (here : s.tasks task = some ⟨gateway,before⟩) (same : after.entry = before.entry)
    (ready : after = .recovering → s.recovery ≠ .absent) : Valid (s.move task gateway after) := by
  refine ⟨valid.staffed.moves here rfl ?_ rfl rfl (fun _ full => full) rfl ready,
    valid.filed.frame (fun _ => rfl) rfl rfl rfl rfl valid.filed.commits rfl rfl⟩
  rw [same,← valid.staffed.carried task gateway before here,update_eq_self]
  rfl

theorem drain_valid {s t : Board} (valid : Valid s) {task : Nat} {event : Event}
    (taken : drain s task event = some t) : Valid t := by
  unfold drain at taken
  cases here : s.tasks task with
  | none => simp [here] at taken
  | some drainer =>
      obtain ⟨gateway,point⟩ := drainer
      simp only [here] at taken
      split at taken
      · -- `begins`
        cases taken
        have begun : (if s.recovery = RecoveryTask.absent then .running else s.recovery) ≠ RecoveryTask.absent := by
          split
          · decide
          · assumption
        have recovering : Valid {s with recovery := if s.recovery = RecoveryTask.absent then .running else s.recovery} :=
          ⟨valid.staffed.frame rfl rfl rfl rfl rfl (fun absent => absurd absent begun),
            valid.filed.frame (fun _ => rfl) rfl rfl rfl rfl valid.filed.commits rfl rfl⟩
        exact recovering.moves here rfl (fun _ => begun)
      · -- `recovered`
        split at taken
        · cases taken
          exact valid.moves here rfl nofun
        · cases taken
      · -- `turns`
        split at taken
        case h_1 empty =>
          cases taken
          exact ⟨valid.staffed.leaves here rfl empty,
            valid.filed.frame (fun _ => rfl) rfl rfl rfl rfl valid.filed.commits rfl rfl⟩
        case h_2 head =>
          cases taken
          exact valid.turns here head
      · cases taken
        exact finish_valid valid here rfl _
      · cases taken
        exact finish_valid valid here rfl _
      case h_6 entry =>
        cases taken
        have running : s.running gateway = some entry := valid.staffed.carried task gateway (.applying entry) here
        have begun := (valid.filed.running gateway entry).mp running
        have edited : Valid (s.edit entry fun held =>
            if held.state = .committing ∨ held.state = .retiring then held else {held with state := .rollingBack}) := by
          apply valid.edits
          intro held found
          simp only [Board.view,found,Option.map_some,Option.some.injEq,Entry.view,View.mk.injEq,
            decide_eq_false_iff_not] at begun
          split
          · rfl
          · simp [Entry.view,begun.2.1]
        exact edited.moves here rfl nofun
      · obtain ⟨held,_,rfl⟩ := Option.map_eq_some_iff.mp taken
        exact finish_valid valid here rfl _
      · cases taken
        exact finish_valid valid here rfl _
      · cases taken

theorem next_valid {s t : Board} {action : Action} (valid : Valid s) (taken : next s action = some t) : Valid t := by
  cases action with
  | submit id gateway => cases taken; exact submit_valid valid id gateway
  | cancel id => cases taken; exact cancel_valid valid id
  | rollingBack id gateway => cases taken; exact rollingBack_valid valid id gateway
  | switch id gateway => cases taken; exact switch_valid valid id gateway
  | commit id gateway => cases taken; exact commit_valid valid id gateway
  | committed index ok => exact committed_valid valid taken
  | wait id => cases taken; exact wait_valid valid id
  | waited index => exact waited_valid valid taken
  | recoveryOver =>
      simp only [next] at taken
      split at taken
      · cases taken
        exact ⟨valid.staffed.frame rfl rfl rfl rfl rfl nofun,
          valid.filed.frame (fun _ => rfl) rfl rfl rfl rfl valid.filed.commits rfl rfl⟩
      · cases taken
  | drain task event => exact drain_valid valid taken

theorem runs_valid {actions : List Action} {s : Board} (ran : execute next start actions = some s) : Valid s :=
  execute_invariant (fun _ _ _ valid taken => next_valid valid taken) start_valid ran

-- A drain task of the gateway has the request in hand.
def Runs (s : Board) (gateway : String) (entry : Nat) : Prop :=
  ∃ task point, s.tasks task = some ⟨gateway,point⟩ ∧ point.entry = some entry

-- A drain task of the gateway exists.
def Drained (s : Board) (gateway : String) : Prop := ∃ task point, s.tasks task = some ⟨gateway,point⟩

theorem Staffed.drains {s : Board} (staffed : Staffed s) {gateway : String} (present : s.drainers gateway ≠ none) :
    Drained s gateway := by
  obtain ⟨task,listed⟩ := Option.ne_none_iff_exists'.mp present
  exact ⟨task,(staffed.tasked gateway task).mp listed⟩

theorem Staffed.runs {s : Board} (staffed : Staffed s) {gateway : String} {entry : Nat} :
    Runs s gateway entry ↔ s.running gateway = some entry := by
  constructor
  · intro ⟨task,point,here,holds⟩
    exact (staffed.carried task gateway point here).trans holds
  · intro running
    have present : s.drainers gateway ≠ none := by
      intro absent
      rw [staffed.idle gateway absent] at running
      cases running
    obtain ⟨task,point,here⟩ := staffed.drains present
    exact ⟨task,point,here,(staffed.carried task gateway point here).symm.trans running⟩

-- A request that is not over is in its gateway's queue or in hand, and either way the gateway
-- has a drain task.
theorem Valid.unfinished {s : Board} (valid : Valid s) {entry : Nat} {held : Entry}
    (found : s.entries[entry]? = some held) (unset : held.done = none) :
    Drained s held.gateway ∧ (entry ∈ s.queues held.gateway ∨ Runs s held.gateway entry) := by
  by_cases queued : held.state = .queued
  · have member : entry ∈ s.queues held.gateway := by
      rw [valid.filed.queued]
      simp [Board.view,found,Entry.view,queued,unset]
    exact ⟨valid.staffed.drains (valid.staffed.woken _ (List.ne_nil_of_mem member)),.inl member⟩
  · have runs : Runs s held.gateway entry := by
      rw [valid.staffed.runs,valid.filed.running]
      simp [Board.view,found,Entry.view,queued,unset]
    have ⟨task,point,here,_⟩ := runs
    exact ⟨⟨task,point,here⟩,.inr runs⟩

-- The steps that need no caller: those of the drain tasks, and the end of the recovery.
def Action.own : Action → Bool
  | .drain _ _ | .recoveryOver => true
  | _ => false

-- The board comes, by steps of its own, to one more request that is over.
def Advances (s : Board) : Prop :=
  ∃ actions t, (∀ action ∈ actions, action.own) ∧ execute next s actions = some t ∧
    t.settled.length = s.settled.length + 1 ∧ t.entries.length = s.entries.length

theorem Advances.after {s t : Board} {action : Action} (taken : next s action = some t) (own : action.own)
    (settled : t.settled = s.settled) (entries : t.entries.length = s.entries.length) (later : Advances t) : Advances s := by
  obtain ⟨actions,u,all,ran,one,same⟩ := later
  refine ⟨action :: actions,u,?_,execute_cons.mpr ⟨t,taken,ran⟩,?_,same.trans entries⟩
  · intro other member
    rcases List.mem_cons.mp member with rfl | later
    · exact own
    · exact all other later
  · rw [one,settled]

theorem Advances.finishes {s : Board} (valid : Valid s) {task : Nat} {gateway : String} {point : Point} {entry : Nat}
    (here : s.tasks task = some ⟨gateway,point⟩) (holds : point.entry = some entry) {event : Event} {report : Report}
    (taken : drain s task event = some (finish s task gateway entry report)) : Advances s := by
  refine ⟨[.drain task event],finish s task gateway entry report,by simp [Action.own],?_,?_,?_⟩
  · exact execute_cons.mpr ⟨_,taken,rfl⟩
  · rw [finish_open valid here holds]
    simp [Board.move]
  · rw [finish_open valid here holds]
    simp [Board.move,Board.edit]

theorem Advances.inHand {s : Board} (valid : Valid s) {task : Nat} {gateway : String} {point : Point} {entry : Nat}
    (here : s.tasks task = some ⟨gateway,point⟩) (holds : point.entry = some entry) : Advances s := by
  cases point with
  | applying other =>
      cases holds
      have taken : drain s task (.raised "") = some (finish s task gateway entry (outcome (s.idOf entry) .failed "")) := by
        simp only [drain,here]
      exact Advances.finishes valid here rfl taken
  | unwinding other =>
      cases holds
      have taken : drain s task (.raised "") = some (finish s task gateway entry (outcome (s.idOf entry) .failed "")) := by
        simp only [drain,here]
      exact Advances.finishes valid here rfl taken
  | created => cases holds
  | recovering => cases holds
  | turning => cases holds

theorem Advances.turning {s : Board} (valid : Valid s) {task : Nat} {gateway : String}
    (here : s.tasks task = some ⟨gateway,.turning⟩) (full : s.queues gateway ≠ []) : Advances s := by
  obtain ⟨entry,rest,head⟩ := List.exists_cons_of_ne_nil full
  have turns : ∃ t, next s (.drain task .turns) = some t ∧ t.settled = s.settled ∧
      t.entries.length = s.entries.length ∧ t.tasks task = some ⟨gateway,.applying entry⟩ := by
    simp only [next,drain,here,head]
    exact ⟨_,rfl,rfl,List.length_modify _ _ _,update_self task _ s.tasks⟩
  obtain ⟨t,taken,settled,entries,there⟩ := turns
  refine Advances.after taken rfl settled entries ?_
  exact Advances.inHand (next_valid valid taken) there rfl

theorem Advances.recovering {s : Board} (valid : Valid s) {task : Nat} {gateway : String}
    (here : s.tasks task = some ⟨gateway,.recovering⟩) (full : s.queues gateway ≠ []) : Advances s := by
  have ready : ∀ t, Valid t → t.recovery = .over → t.tasks task = some ⟨gateway,.recovering⟩ → t.queues gateway ≠ [] →
      Advances t := by
    intro t valid ended here full
    have taken : next t (.drain task .recovered) = some (t.move task gateway .turning) := by
      simp only [next,drain,here,ended,if_true]
    refine Advances.after taken rfl rfl rfl ?_
    exact Advances.turning (next_valid valid taken) (update_self task _ t.tasks) full
  cases recovery : s.recovery with
  | absent => exact absurd recovery (valid.staffed.recovers task gateway here)
  | «over» => exact ready s valid recovery here full
  | running =>
      have taken : next s .recoveryOver = some {s with recovery := .over} := by simp only [next,recovery,if_true]
      refine Advances.after taken rfl rfl rfl ?_
      exact ready _ (next_valid valid taken) rfl here full

-- Wherever a request is not over, its gateway's task can bring one to its end.
theorem Valid.advances {s : Board} (valid : Valid s) {entry : Nat} {held : Entry}
    (found : s.entries[entry]? = some held) (unset : held.done = none) : Advances s := by
  obtain ⟨⟨task,point,here⟩,place⟩ := valid.unfinished found unset
  have full : point.entry = none → s.queues held.gateway ≠ [] := by
    intro free
    rcases place with member | runs
    · exact List.ne_nil_of_mem member
    · have running := valid.staffed.runs.mp runs
      rw [valid.staffed.carried task _ point here,free] at running
      cases running
  cases point with
  | applying other => exact Advances.inHand valid here rfl
  | unwinding other => exact Advances.inHand valid here rfl
  | turning => exact Advances.turning valid here (full rfl)
  | recovering => exact Advances.recovering valid here (full rfl)
  | created =>
      have begins : ∃ t, next s (.drain task .begins) = some t ∧ t.settled = s.settled ∧ t.entries = s.entries ∧
          t.queues = s.queues ∧ t.tasks task = some ⟨held.gateway,.recovering⟩ := by
        simp only [next,drain,here]
        exact ⟨_,rfl,rfl,rfl,rfl,update_self task _ s.tasks⟩
      obtain ⟨t,taken,settled,entries,queues,there⟩ := begins
      refine Advances.after taken rfl settled (congrArg List.length entries) ?_
      apply Advances.recovering (next_valid valid taken) there
      rw [queues]
      exact full rfl

-- A future that is not set is not among those that were.
theorem Valid.room {s : Board} (valid : Valid s) {entry : Nat} {held : Entry}
    (found : s.entries[entry]? = some held) (unset : held.done = none) : s.settled.length < s.entries.length := by
  have counts : ∀ other, s.settled.count other ≤ 1 := by
    intro other
    rw [valid.filed.counted]
    split <;> omega
  have missing : entry ∉ s.settled := by
    rw [← List.count_eq_zero,valid.filed.counted]
    simp [Board.view,found,Entry.view,unset]
  have once : (entry :: s.settled).Nodup := List.nodup_cons.mpr ⟨missing,List.nodup_iff_count_le_one.mpr counts⟩
  have within : entry :: s.settled ⊆ List.range s.entries.length := by
    intro other member
    rw [List.mem_range]
    rcases List.mem_cons.mp member with rfl | set
    · exact (List.getElem?_eq_some_iff.mp found).1
    · by_contra far
      have none_ : s.view other = none := by
        simp only [Board.view,Option.map_eq_none_iff,List.getElem?_eq_none_iff]
        omega
      have count := valid.filed.counted other
      rw [none_] at count
      exact absurd set (List.count_eq_zero.mp count)
  have bound := (once.subperm within).length_le
  rw [List.length_cons,List.length_range] at bound
  omega

-- By steps of its own the board comes to a state where every request is over.
theorem Valid.completes {s : Board} (valid : Valid s) :
    ∃ actions t, (∀ action ∈ actions, action.own) ∧ execute next s actions = some t ∧
      t.entries.length = s.entries.length ∧ ∀ held ∈ t.entries, held.done ≠ none := by
  induction left : s.entries.length - s.settled.length generalizing s with
  | zero =>
      refine ⟨[],s,by simp,rfl,rfl,?_⟩
      intro held member unset
      obtain ⟨entry,found⟩ := List.mem_iff_getElem?.mp member
      have := valid.room found unset
      omega
  | succ left ih =>
      by_cases ended : ∀ held ∈ s.entries, held.done ≠ none
      · exact ⟨[],s,by simp,rfl,rfl,ended⟩
      · push Not at ended
        obtain ⟨held,member,unset⟩ := ended
        obtain ⟨entry,found⟩ := List.mem_iff_getElem?.mp member
        obtain ⟨first,middle,own,ran,one,same⟩ := valid.advances found unset
        have kept : Valid middle := execute_invariant (fun _ _ _ valid taken => next_valid valid taken) valid ran
        obtain ⟨second,t,later,goes,length,all⟩ := ih kept (by omega)
        refine ⟨first ++ second,t,?_,execute_append.mpr ⟨middle,ran,goes⟩,length.trans same,all⟩
        intro action member
        rcases List.mem_append.mp member with early | late
        · exact own action early
        · exact later action late

-- In every run of the queues: one request of a gateway at a time, in the order of their
-- submission; none that was cancelled while queued; one outcome for each, set on an open
-- future; a drain task wherever a request is not over; and a way, by steps of the
-- coordinator's own, to the outcome of each.
theorem requests_take_turns {actions : List Action} {s : Board} (ran : execute next start actions = some s) :
    (∀ gateway one two, Runs s gateway one → Runs s gateway two → one = two) ∧
    (∀ gateway one two p q, s.tasks one = some ⟨gateway,p⟩ → s.tasks two = some ⟨gateway,q⟩ → one = two) ∧
    (∀ gateway, (s.started gateway ++ s.queues gateway).Pairwise (· < ·)) ∧
    (∀ entry ∈ s.dropped, ∀ gateway, entry ∉ s.started gateway) ∧
    (∀ entry held, s.entries[entry]? = some held → s.settled.count entry = if held.done.isSome then 1 else 0) ∧
    s.faults = 0 ∧
    (∀ gateway, s.queues gateway ≠ [] → Drained s gateway) ∧
    (∀ entry held, s.entries[entry]? = some held → held.done = none →
      Drained s held.gateway ∧ (entry ∈ s.queues held.gateway ∨ Runs s held.gateway entry)) ∧
    (∃ later t, (∀ action ∈ later, action.own) ∧ execute next s later = some t ∧
      t.entries.length = s.entries.length ∧ ∀ held ∈ t.entries, held.done ≠ none) := by
  have valid := runs_valid ran
  refine ⟨?_,?_,valid.filed.ordered,?_,?_,valid.filed.faultless,?_,?_,valid.completes⟩
  · intro gateway one two first second
    have := (valid.staffed.runs.mp first).symm.trans (valid.staffed.runs.mp second)
    exact Option.some.inj this
  · intro gateway one two p q first second
    have one_listed := (valid.staffed.tasked gateway one).mpr ⟨p,first⟩
    have two_listed := (valid.staffed.tasked gateway two).mpr ⟨q,second⟩
    exact Option.some.inj (one_listed.symm.trans two_listed)
  · intro entry dropped gateway began
    obtain ⟨other,gone⟩ := (valid.filed.dropped entry).mp dropped
    obtain ⟨done,begun⟩ := (valid.filed.began gateway entry).mp began
    rw [gone] at begun
    cases begun
  · intro entry held found
    rw [valid.filed.counted]
    simp [Board.view,found,Entry.view]
  · intro gateway full
    exact valid.staffed.drains (valid.staffed.woken gateway full)
  · intro entry held found unset
    exact valid.unfinished found unset

def twoRequests : List Action :=
  [.submit "a" "g",.submit "b" "g",.drain 0 .begins,.recoveryOver,.drain 0 .recovered,.drain 0 .turns,.cancel "b",
    .drain 0 (.returned (outcome "a" .succeeded "")),.submit "c" "g",.drain 0 .turns]

theorem requests_take_turns_cancelled :
    ∃ s, execute next start twoRequests = some s ∧ s.started "g" = [0,2] ∧ s.dropped = [1] ∧
      ∀ entry ∈ s.dropped, ∀ gateway, entry ∉ s.started gateway := by
  have shown : (execute next start twoRequests).map (fun s => (s.started "g",s.dropped)) = some ([0,2],[1]) := by
    decide +kernel
  obtain ⟨s,ran,seen⟩ := Option.map_eq_some_iff.mp shown
  simp only [Prod.mk.injEq] at seen
  exact ⟨s,ran,seen.1,seen.2,(requests_take_turns ran).2.2.2.1⟩

end Modelship.Deploy.Queue
