import Mathlib.Data.List.Nodup
import Modelship.Foundation.Dict
import Modelship.Foundation.Runs

namespace Modelship.Deploy.Leases
open Foundation

-- `_Lease`: the holder's Serve replica.
structure Lease where
  app : String
  deployment : String
  replica : String
  label : String
  deriving DecidableEq

def unlistedChecks : Nat := 2

-- What Serve lists: the state of each replica by (app, deployment, replica id).
abbrev Listing := Dict (String × String × String) String

-- `_load_leases`: about to list the keys, reading the keys it listed, or done.
inductive Loader where
  | listing
  | reading (keys : List String)
  | loaded
  deriving DecidableEq

-- An `acquire` call that waits for the store; `landed` once its write is there.
structure Call where
  node : String
  lease : Lease
  landed : Bool
  deriving DecidableEq

-- `_check_leases`: between two passes; reading Serve; walking the leases it copied; or in
-- `_release` of one of them, waiting for the store to delete it.
inductive Checker where
  | idle
  | listing
  | walking (states : Listing) (left : List (String × Lease))
  | deleting (states : Listing) (node : String) (lease : Lease) (landed : Bool) (left : List (String × Lease))

def Checker.deletes (node : String) : Checker → Bool
  | .deleting _ other _ _ _ => other = node
  | _ => false

-- The deploy coordinator's leases by node, and the store's. `granted` records every lease
-- that an `acquire` call granted, until a listing of Serve frees it.
structure Service where
  store : Dict String Lease
  leases : Dict String Lease
  unlisted : Dict String Nat
  loader : Loader
  calls : List Call
  checker : Checker
  granted : List (String × Lease)

inductive Answer where
  | granted
  | refused (blocker : String)
  | writing

def acquire (s : Service) (node : String) (lease : Lease) : Service × Answer :=
  if s.loader ≠ .loaded then (s,.refused "deploy lease service starting") else
  match s.leases.get? node with
  | some held =>
    if held = lease then ({s with granted := s.granted ++ [(node,lease)]},.granted)
    else (s,.refused ("held by " ++ held.label))
  | none =>
    ({s with
      leases := s.leases.set node lease
      unlisted := s.unlisted.erase node
      calls := s.calls ++ [⟨node,lease,false⟩]},.writing)

-- The write of a call reaches the store.
def lands (s : Service) (index : Nat) : Option Service :=
  s.calls[index]?.map fun call =>
    {s with store := s.store.set call.node call.lease,calls := s.calls.set index {call with landed := true}}

def returns (s : Service) (index : Nat) : Option Service :=
  match s.calls[index]? with
  | some ⟨node,lease,true⟩ => some {s with calls := s.calls.eraseIdx index,granted := s.granted ++ [(node,lease)]}
  | _ => none

-- Answered with "deploy lease store unavailable".
def raises (s : Service) (index : Nat) : Option Service :=
  s.calls[index]?.map fun call =>
    {s with
      calls := s.calls.eraseIdx index
      leases := if s.leases.get? call.node = some call.lease then s.leases.erase call.node else s.leases}

def lists (s : Service) (ok : Bool) : Option Service :=
  match s.loader with
  | .listing => some (if ok then {s with loader := .reading (s.store.entries.map (·.1))} else s)
  | _ => none

def reads (s : Service) (ok : Bool) : Option Service :=
  match s.loader with
  | .reading (key :: rest) =>
    if ok then
      let leases := match s.store.get? key with
        | some lease => s.leases.set key lease
        | none => s.leases
      some {s with leases,loader := .reading rest}
    else some {s with loader := .listing}
  | .reading [] => some {s with loader := .loaded}
  | _ => none

-- Up to its wait for the store.
def release (s : Service) (states : Listing) (node : String) (lease : Lease) (left : List (String × Lease)) : Service :=
  {s with
    checker := .deleting states node lease false left
    granted := s.granted.filter (· ≠ (node,lease))}

def stateOf (states : Listing) (lease : Lease) : Option String :=
  states.get? (lease.app,lease.deployment,lease.replica)

-- Whether a pass frees the lease: Serve lists its replica RUNNING, or has not listed it on
-- this check and enough before.
def frees (s : Service) (states : Listing) (node : String) (lease : Lease) : Bool :=
  match stateOf states lease with
  | none => unlistedChecks ≤ (s.unlisted.get? node).getD 0 + 1
  | some state => state = "RUNNING"

def walk (s : Service) (states : Listing) (node : String) (lease : Lease) (left : List (String × Lease)) : Service :=
  let s := match stateOf states lease with
    | none => {s with unlisted := s.unlisted.set node ((s.unlisted.get? node).getD 0 + 1)}
    | some state => if state ≠ "RUNNING" then {s with unlisted := s.unlisted.erase node} else s
  {s with checker := .walking states left}

-- The rest of `_release`, whether the store deleted the key or raised.
def released (s : Service) (states : Listing) (node : String) (lease : Lease) (left : List (String × Lease)) : Service :=
  {s with
    leases := if s.leases.get? node = some lease then s.leases.erase node else s.leases
    unlisted := s.unlisted.erase node
    checker := .walking states left}

def check (s : Service) : Option Service :=
  match s.checker with
  | .idle => if s.loader = .loaded ∧ s.leases.entries ≠ [] then some {s with checker := .listing} else none
  | _ => none

def listed (s : Service) (states : Option Listing) : Option Service :=
  match s.checker with
  | .listing =>
    some {s with checker := match states with
      | none => .idle
      | some states => .walking states s.leases.entries}
  | _ => none

def walks (s : Service) : Option Service :=
  match s.checker with
  | .walking states ((node,lease) :: left) =>
    some (if frees s states node lease then release (walk s states node lease left) states node lease left
      else walk s states node lease left)
  | .walking _ [] => some {s with checker := .idle}
  | _ => none

def deleteLands (s : Service) : Option Service :=
  match s.checker with
  | .deleting states node lease _ left =>
    some {s with store := s.store.erase node,checker := .deleting states node lease true left}
  | _ => none

-- The store answers, which it does only once the delete is there, or raises.
def deleteEnds (s : Service) (ok : Bool) : Option Service :=
  match s.checker with
  | .deleting states node lease landed left =>
    if ok ∧ landed = false then none else some (released s states node lease left)
  | _ => none

-- A new deploy coordinator: what the old one had in memory or on the way is gone.
def restart (s : Service) : Service :=
  {s with leases := .empty,unlisted := .empty,loader := .listing,calls := [],checker := .idle}

inductive Action where
  | acquire (node : String) (lease : Lease)
  | lands (index : Nat)
  | returns (index : Nat)
  | raises (index : Nat)
  | lists (ok : Bool)
  | reads (ok : Bool)
  | check
  | listed (states : Option Listing)
  | walks
  | deleteLands
  | deleteEnds (ok : Bool)
  | restart

def next (s : Service) : Action → Option Service
  | .acquire node lease => some (acquire s node lease).1
  | .lands index => lands s index
  | .returns index => returns s index
  | .raises index => raises s index
  | .lists ok => lists s ok
  | .reads ok => reads s ok
  | .check => check s
  | .listed states => listed s states
  | .walks => walks s
  | .deleteLands => deleteLands s
  | .deleteEnds ok => deleteEnds s ok
  | .restart => some (restart s)

def start (store : Dict String Lease) : Service := ⟨store,.empty,.empty,.listing,[],.idle,[]⟩

-- No call of the coordinator's own is between the node's lease and the store.
def quiet (s : Service) (node : String) : Bool := s.calls.all (·.node ≠ node) && !s.checker.deletes node

-- A step that works on a lease as it is: a repeated call finds no write and no delete of the
-- lease on the way, and a pass frees a lease that the table still has, with no write of it on
-- the way.
def settled (s : Service) : Action → Bool
  | .acquire node lease => s.leases.get? node ≠ some lease || quiet s node
  | .walks =>
    match s.checker with
    | .walking states ((node,lease) :: _) =>
      !frees s states node lease || s.leases.get? node = some lease && s.calls.all (·.node ≠ node)
    | _ => true
  | _ => true

-- A call's lease is in the table and not granted, and nothing else of its node is on the way.
structure Pending (s : Service) (call : Call) : Prop where
  tabled : s.leases.get? call.node = some call.lease
  stored : call.landed = true → s.store.get? call.node = some call.lease
  unreleased : s.checker.deletes call.node = false
  ungranted : ∀ lease, (call.node,lease) ∉ s.granted

-- `_release` works on a lease that the table has, that no call is writing and that is granted
-- no more.
def Releasing (s : Service) : Checker → Prop
  | .deleting _ node lease _ _ =>
    s.leases.get? node = some lease ∧ (∀ call ∈ s.calls, call.node ≠ node) ∧ ∀ lease, (node,lease) ∉ s.granted
  | _ => True

-- What the loader has left out of the table it will still read.
def Loading (s : Service) : Loader → Prop
  | .listing => True
  | .reading keys => ∀ node lease, s.store.get? node = some lease → node ∈ keys ∨ s.leases.get? node = some lease
  | .loaded => ∀ node lease, (node,lease) ∈ s.granted → s.leases.get? node = some lease

structure Sound (s : Service) : Prop where
  granted : ∀ node lease, (node,lease) ∈ s.granted → s.store.get? node = some lease
  calls : ∀ call ∈ s.calls, Pending s call
  apart : (s.calls.map (·.node)).Nodup
  releasing : Releasing s s.checker
  kept : ∀ node lease, s.leases.get? node = some lease → quiet s node = true → s.store.get? node = some lease
  loading : Loading s s.loader
  starting : s.loader ≠ .loaded → s.calls = [] ∧ s.checker = .idle

theorem start_sound (store : Dict String Lease) : Sound (start store) := by
  constructor <;> simp [start,Releasing,Loading]

theorem quiet_iff {s : Service} {node : String} :
    quiet s node = true ↔ (∀ call ∈ s.calls, call.node ≠ node) ∧ s.checker.deletes node = false := by
  simp [quiet]

-- Only the lease under deletion counts.
theorem Releasing.carries {s t : Service} {checker : Checker} (releasing : Releasing s checker)
    (each : ∀ node lease, checker.deletes node = true → s.leases.get? node = some lease →
      (∀ call ∈ s.calls, call.node ≠ node) → (∀ lease, (node,lease) ∉ s.granted) →
      t.leases.get? node = some lease ∧ (∀ call ∈ t.calls, call.node ≠ node) ∧ ∀ lease, (node,lease) ∉ t.granted) :
    Releasing t checker := by
  cases checker with
  | deleting states node lease landed left =>
      obtain ⟨tabled,unwritten,ungranted⟩ := releasing
      exact each node lease (by simp [Checker.deletes]) tabled unwritten ungranted
  | idle => trivial
  | listing => trivial
  | walking states left => trivial

theorem Releasing.tabled {s : Service} {checker : Checker} {node : String} (releasing : Releasing s checker)
    (deletes : checker.deletes node = true) : ∃ lease, s.leases.get? node = some lease := by
  cases checker with
  | deleting states other lease landed left =>
      have same : other = node := by simpa [Checker.deletes] using deletes
      exact ⟨lease,same ▸ releasing.1⟩
  | idle => cases deletes
  | listing => cases deletes
  | walking states left => cases deletes

-- A lease of the table that is granted again.
theorem Sound.grants {s : Service} (sound : Sound s) {node : String} {lease : Lease}
    (tabled : s.leases.get? node = some lease) (still : quiet s node = true) :
    Sound {s with granted := s.granted ++ [(node,lease)]} := by
  have stored := sound.kept node lease tabled still
  obtain ⟨others,undeleted⟩ := quiet_iff.mp still
  have mem : ∀ other held, (other,held) ∈ s.granted ++ [(node,lease)] ↔
      (other,held) ∈ s.granted ∨ other = node ∧ held = lease := by
    intro other held
    simp
  have ⟨granted,calls,apart,releasing,kept,loading,starting⟩ := sound
  refine ⟨?_,?_,apart,?_,kept,?_,starting⟩
  · intro other held member
    rcases (mem other held).mp member with old | ⟨rfl,rfl⟩
    · exact granted other held old
    · exact stored
  · intro call present
    obtain ⟨tabled,stored,unreleased,ungranted⟩ := calls call present
    refine ⟨tabled,stored,unreleased,?_⟩
    intro held member
    rcases (mem call.node held).mp member with old | ⟨same,_⟩
    · exact ungranted held old
    · exact others call present same
  · apply releasing.carries
    intro other _ deletes tabled unwritten ungranted
    refine ⟨tabled,unwritten,?_⟩
    intro held member
    rcases (mem other held).mp member with old | ⟨same,_⟩
    · exact ungranted held old
    · rw [same,undeleted] at deletes
      cases deletes
  · cases loader : s.loader with
    | loaded =>
        rw [loader] at loading
        intro other held member
        rcases (mem other held).mp member with old | ⟨rfl,rfl⟩
        · exact loading other held old
        · exact tabled
    | listing => trivial
    | reading keys =>
        rw [loader] at loading
        exact loading

-- A node that the table does not have is taken, its write on the way.
theorem Sound.takes {s : Service} (sound : Sound s) {node : String} (lease : Lease) (loaded : s.loader = .loaded)
    (free : s.leases.get? node = none) :
    Sound {s with
      leases := s.leases.set node lease
      unlisted := s.unlisted.erase node
      calls := s.calls ++ [⟨node,lease,false⟩]} := by
  have ⟨granted,calls,apart,releasing,kept,loading,starting⟩ := sound
  rw [loaded] at loading
  have ungranted : ∀ held, (node,held) ∉ s.granted := by
    intro held member
    rw [loading node held member] at free
    cases free
  have unwritten : ∀ call ∈ s.calls, call.node ≠ node := by
    intro call present same
    rw [← same,(calls call present).tabled] at free
    cases free
  have undeleted : s.checker.deletes node = false := by
    apply Bool.eq_false_iff.mpr
    intro deletes
    obtain ⟨held,tabled⟩ := releasing.tabled deletes
    rw [free] at tabled
    cases tabled
  refine ⟨granted,?_,?_,?_,?_,?_,?_⟩
  · intro call present
    rcases List.mem_append.mp present with old | new
    · obtain ⟨tabled,stored,unreleased,ungranted⟩ := calls call old
      refine ⟨?_,stored,unreleased,ungranted⟩
      rw [Dict.get_set,if_neg (Ne.symm (unwritten call old))]
      exact tabled
    · rw [List.mem_singleton.mp new]
      refine ⟨?_,nofun,undeleted,ungranted⟩
      simp
  · rw [List.map_append,List.nodup_append]
    refine ⟨apart,by simp,?_⟩
    intro other member last final same
    obtain ⟨call,present,rfl⟩ := List.mem_map.mp member
    simp only [List.map_cons,List.map_nil,List.mem_singleton] at final
    exact unwritten call present (same.trans final)
  · apply releasing.carries
    intro other _ deletes tabled others gone
    have different : node ≠ other := by
      intro same
      rw [← same,undeleted] at deletes
      cases deletes
    refine ⟨?_,?_,gone⟩
    · rw [Dict.get_set,if_neg different]
      exact tabled
    · intro call present
      rcases List.mem_append.mp present with old | new
      · exact others call old
      · rw [List.mem_singleton.mp new]
        exact different
  · intro other held tabled still
    obtain ⟨others,undeleted⟩ := quiet_iff.mp still
    have different : node ≠ other := others ⟨node,lease,false⟩ (by simp)
    rw [Dict.get_set,if_neg different] at tabled
    apply kept other held tabled
    apply quiet_iff.mpr
    refine ⟨?_,undeleted⟩
    intro call present
    exact others call (List.mem_append_left _ present)
  · rw [loaded]
    intro other held member
    have different : node ≠ other := by
      intro same
      subst same
      exact ungranted held member
    rw [Dict.get_set,if_neg different]
    exact loading other held member
  · intro unready
    exact absurd loaded unready

theorem acquire_sound {s : Service} (sound : Sound s) {node : String} {lease : Lease}
    (steady : settled s (.acquire node lease) = true) : Sound (acquire s node lease).1 := by
  unfold acquire
  split
  · exact sound
  case isFalse ready =>
  have loaded : s.loader = .loaded := by simpa using ready
  cases tabled : s.leases.get? node with
  | none => exact sound.takes lease loaded tabled
  | some held =>
      dsimp only
      split
      case isFalse => exact sound
      case isTrue same =>
        subst same
        apply sound.grants tabled
        simpa [settled,tabled] using steady

-- The calls left when one ends are those of the other nodes.
theorem left_apart {calls : List Call} (apart : (calls.map (·.node)).Nodup) {index : Nat} {call : Call}
    (found : calls[index]? = some call) : ∀ other ∈ calls.eraseIdx index, other ∈ calls ∧ other.node ≠ call.node := by
  induction calls generalizing index with
  | nil => simp at found
  | cons head rest ih =>
      obtain ⟨fresh,later⟩ := List.nodup_cons.mp apart
      cases index with
      | zero =>
          simp only [List.getElem?_cons_zero,Option.some.injEq] at found
          subst found
          intro other member
          refine ⟨List.mem_cons_of_mem _ member,?_⟩
          intro same
          exact fresh (List.mem_map.mpr ⟨other,member,same⟩)
      | succ index =>
          simp only [List.getElem?_cons_succ] at found
          intro other member
          rw [List.eraseIdx_cons_succ,List.mem_cons] at member
          rcases member with rfl | member
          · refine ⟨List.mem_cons_self,?_⟩
            intro same
            exact fresh (List.mem_map.mpr ⟨call,List.mem_of_getElem? found,same.symm⟩)
          · obtain ⟨old,different⟩ := ih later found other member
            exact ⟨List.mem_cons_of_mem _ old,different⟩

theorem nodes_landed {calls : List Call} {index : Nat} {call : Call} (found : calls[index]? = some call) :
    (calls.set index {call with landed := true}).map (·.node) = calls.map (·.node) := by
  rw [List.map_set]
  apply List.ext_getElem?
  intro other
  rw [List.getElem?_set]
  split
  case isTrue same =>
    subst same
    obtain ⟨inside,rfl⟩ := List.getElem?_eq_some_iff.mp found
    simp [inside]
  case isFalse => rfl

theorem lands_sound {s t : Service} (sound : Sound s) {index : Nat} (taken : lands s index = some t) : Sound t := by
  obtain ⟨call,found,rfl⟩ := Option.map_eq_some_iff.mp taken
  have ⟨granted,calls,apart,releasing,kept,loading,starting⟩ := sound
  have present := List.mem_of_getElem? found
  have here := calls call present
  have loaded : s.loader = .loaded := by
    by_contra unready
    rw [(starting unready).1] at found
    cases found
  have old : ∀ other ∈ s.calls.set index {call with landed := true},
      other ∈ s.calls ∨ other = {call with landed := true} := fun other member => List.mem_or_eq_of_mem_set member
  refine ⟨?_,?_,?_,?_,?_,?_,?_⟩
  · intro node lease member
    rw [Dict.get_set]
    split
    case isTrue same =>
      subst same
      exact absurd member (here.ungranted lease)
    case isFalse => exact granted node lease member
  · intro other member
    rcases old other member with before | rfl
    · obtain ⟨tabled,stored,unreleased,ungranted⟩ := calls other before
      refine ⟨tabled,?_,unreleased,ungranted⟩
      intro landed
      rw [Dict.get_set]
      split
      case isTrue same => rw [← tabled,← same,here.tabled]
      case isFalse => exact stored landed
    · refine ⟨here.tabled,?_,here.unreleased,here.ungranted⟩
      intro _
      simp
  · dsimp only
    rw [nodes_landed found]
    exact apart
  · apply releasing.carries
    intro other _ _ tabled unwritten ungranted
    refine ⟨tabled,?_,ungranted⟩
    intro writer member
    rcases old writer member with before | rfl
    · exact unwritten writer before
    · exact unwritten call present
  · intro node lease tabled still
    obtain ⟨others,undeleted⟩ := quiet_iff.mp still
    have unwritten : ∀ writer ∈ s.calls, writer.node ≠ node := by
      intro writer member same
      have names : node ∈ (s.calls.set index {call with landed := true}).map (·.node) := by
        rw [nodes_landed found]
        exact List.mem_map.mpr ⟨writer,member,same⟩
      obtain ⟨other,there,named⟩ := List.mem_map.mp names
      exact others other there named
    rw [Dict.get_set,if_neg (unwritten call present)]
    exact kept node lease tabled (quiet_iff.mpr ⟨unwritten,undeleted⟩)
  · rw [loaded] at loading
    dsimp only
    rw [loaded]
    exact loading
  · intro unready
    exact absurd loaded unready

theorem left_rest {calls : List Call} {index : Nat} {call : Call} (found : calls[index]? = some call) :
    ∀ other ∈ calls, other = call ∨ other ∈ calls.eraseIdx index := by
  intro other member
  obtain ⟨place,there⟩ := List.mem_iff_getElem?.mp member
  by_cases same : place = index
  · rw [same,found] at there
    exact .inl (Option.some.inj there).symm
  · exact .inr (List.mem_eraseIdx_iff_getElem?.mpr ⟨place,same,there⟩)

-- A call ends. The table keeps the other nodes' leases, and this node's only if it is stored.
theorem Sound.ends {s : Service} (sound : Sound s) {index : Nat} {call : Call} (found : s.calls[index]? = some call)
    {leases : Dict String Lease} (others : ∀ node, node ≠ call.node → leases.get? node = s.leases.get? node)
    (last : ∀ lease, leases.get? call.node = some lease → s.store.get? call.node = some lease) :
    Sound {s with leases,calls := s.calls.eraseIdx index} := by
  have ⟨granted,calls,apart,releasing,kept,loading,starting⟩ := sound
  have here := calls call (List.mem_of_getElem? found)
  have left := left_apart apart found
  refine ⟨granted,?_,?_,?_,?_,?_,?_⟩
  · intro other member
    obtain ⟨old,different⟩ := left other member
    obtain ⟨tabled,stored,unreleased,ungranted⟩ := calls other old
    exact ⟨(others other.node different).trans tabled,stored,unreleased,ungranted⟩
  · exact apart.sublist ((List.eraseIdx_sublist s.calls index).map _)
  · apply releasing.carries
    intro node _ _ tabled unwritten ungranted
    have different := unwritten call (List.mem_of_getElem? found)
    refine ⟨(others node (Ne.symm different)).trans tabled,?_,ungranted⟩
    intro writer member
    exact unwritten writer (left writer member).1
  · intro node held tabled still
    by_cases same : node = call.node
    · subst same
      exact last held tabled
    · rw [others node same] at tabled
      obtain ⟨unwritten,undeleted⟩ := quiet_iff.mp still
      apply kept node held tabled
      apply quiet_iff.mpr
      refine ⟨?_,undeleted⟩
      intro writer member
      rcases left_rest found writer member with rfl | rest
      · exact Ne.symm same
      · exact unwritten writer rest
  · cases loader : s.loader with
    | loaded =>
        rw [loader] at loading
        intro node held member
        have different : node ≠ call.node := by
          intro same
          subst same
          exact here.ungranted held member
        exact (others node different).trans (loading node held member)
    | listing => trivial
    | reading keys =>
        rw [(starting (by simp [loader])).1] at found
        cases found
  · intro unready
    rw [(starting unready).1] at found
    cases found

-- A call is answered: its write is in the store, and its lease still in the table.
theorem returns_sound {s t : Service} (sound : Sound s) {index : Nat} (taken : returns s index = some t) : Sound t := by
  unfold returns at taken
  split at taken
  case h_2 => cases taken
  case h_1 node lease found =>
    cases taken
    have here := sound.calls _ (List.mem_of_getElem? found)
    have ended : Sound {s with calls := s.calls.eraseIdx index} := by
      apply sound.ends found (fun _ _ => rfl)
      intro other tabled
      rw [here.tabled] at tabled
      cases tabled
      exact here.stored rfl
    refine ended.grants here.tabled ?_
    apply quiet_iff.mpr
    exact ⟨fun other member => (left_apart sound.apart found other member).2,here.unreleased⟩

theorem raises_sound {s t : Service} (sound : Sound s) {index : Nat} (taken : raises s index = some t) : Sound t := by
  obtain ⟨call,found,rfl⟩ := Option.map_eq_some_iff.mp taken
  have here := sound.calls call (List.mem_of_getElem? found)
  rw [if_pos here.tabled]
  refine sound.ends found ?_ ?_
  · intro node different
    rw [Dict.get_erase,if_neg (Ne.symm different)]
  · intro lease tabled
    simp at tabled

theorem Releasing.none {s : Service} {checker : Checker} (undeleted : ∀ node, checker.deletes node = false) :
    Releasing s checker := by
  cases checker with
  | deleting states node lease landed left => simpa [Checker.deletes] using undeleted node
  | idle => trivial
  | listing => trivial
  | walking states left => trivial

-- While the table is read back, nothing is on the way and the table has only what is stored.
theorem Sound.loads {s : Service} (granted : ∀ node lease, (node,lease) ∈ s.granted → s.store.get? node = some lease)
    (idle : s.calls = []) (unchecked : s.checker = .idle)
    (kept : ∀ node lease, s.leases.get? node = some lease → s.store.get? node = some lease)
    (loading : Loading s s.loader) : Sound s := by
  refine ⟨granted,?_,?_,?_,fun node lease tabled _ => kept node lease tabled,loading,fun _ => ⟨idle,unchecked⟩⟩
  · simp [idle]
  · simp [idle]
  · rw [unchecked]
    trivial

theorem Sound.unloaded {s : Service} (sound : Sound s) (unready : s.loader ≠ .loaded) :
    s.calls = [] ∧ s.checker = .idle ∧
      ∀ node lease, s.leases.get? node = some lease → s.store.get? node = some lease := by
  obtain ⟨idle,unchecked⟩ := sound.starting unready
  refine ⟨idle,unchecked,?_⟩
  intro node lease tabled
  apply sound.kept node lease tabled
  apply quiet_iff.mpr
  exact ⟨by simp [idle],by rw [unchecked]; rfl⟩

theorem lists_sound {s t : Service} (sound : Sound s) {ok : Bool} (taken : lists s ok = some t) : Sound t := by
  unfold lists at taken
  split at taken
  case h_2 => cases taken
  case h_1 listing =>
    cases taken
    split
    · obtain ⟨idle,unchecked,kept⟩ := sound.unloaded (by simp [listing])
      refine Sound.loads sound.granted idle unchecked kept ?_
      intro node lease stored
      exact .inl (List.mem_map.mpr ⟨(node,lease),Dict.get_some_mem stored,rfl⟩)
    · exact sound

theorem reads_sound {s t : Service} (sound : Sound s) {ok : Bool} (taken : reads s ok = some t) : Sound t := by
  have loading := sound.loading
  unfold reads at taken
  cases loader : s.loader with
  | listing => simp [loader] at taken
  | loaded => simp [loader] at taken
  | reading keys =>
      obtain ⟨idle,unchecked,kept⟩ := sound.unloaded (by simp [loader])
      rw [loader] at loading
      cases keys with
      | nil =>
          simp only [loader,Option.some.injEq] at taken
          subst taken
          refine Sound.loads sound.granted idle unchecked kept ?_
          intro node lease member
          rcases loading node lease (sound.granted node lease member) with unread | tabled
          · cases unread
          · exact tabled
      | cons key rest =>
          cases ok with
          | false =>
              simp only [loader,Bool.false_eq_true,if_false,Option.some.injEq] at taken
              subst taken
              exact Sound.loads sound.granted idle unchecked kept trivial
          | true =>
              simp only [loader,if_true,Option.some.injEq] at taken
              subst taken
              cases stored : s.store.get? key with
              | none =>
                  refine Sound.loads sound.granted idle unchecked kept ?_
                  intro node lease present
                  rcases loading node lease present with unread | tabled
                  · rcases List.mem_cons.mp unread with rfl | later
                    · have present : s.store.get? node = some lease := present
                      rw [stored] at present
                      cases present
                    · exact .inl later
                  · exact .inr tabled
              | some value =>
                  refine Sound.loads sound.granted idle unchecked ?_ ?_
                  · intro node lease tabled
                    simp only [Dict.get_set] at tabled
                    split at tabled
                    case isTrue same =>
                      cases tabled
                      rw [← same]
                      exact stored
                    case isFalse => exact kept node lease tabled
                  · intro node lease present
                    have present : s.store.get? node = some lease := present
                    simp only [Dict.get_set]
                    split
                    case isTrue same =>
                      rw [← same,stored] at present
                      exact .inr present
                    case isFalse different =>
                      rcases loading node lease present with unread | tabled
                      · rcases List.mem_cons.mp unread with rfl | later
                        · exact absurd rfl different
                        · exact .inl later
                      · exact .inr tabled

theorem restart_sound {s : Service} (sound : Sound s) : Sound (restart s) := by
  refine Sound.loads sound.granted rfl rfl ?_ trivial
  intro node lease tabled
  simp [restart] at tabled

-- The checker moves on without a delete on the way.
theorem Sound.checks {s : Service} (sound : Sound s) {checker : Checker} (unlisted : Dict String Nat)
    (ready : s.loader = .loaded) (before : ∀ node, s.checker.deletes node = false) (after : ∀ node, checker.deletes node = false) :
    Sound {s with unlisted,checker} := by
  obtain ⟨granted,calls,apart,_,kept,loading,_⟩ := sound
  refine ⟨granted,?_,apart,Releasing.none after,?_,loading,fun unready => absurd ready unready⟩
  · intro call present
    obtain ⟨tabled,stored,_,ungranted⟩ := calls call present
    exact ⟨tabled,stored,after _,ungranted⟩
  · intro node lease tabled still
    apply kept node lease tabled
    apply quiet_iff.mpr
    exact ⟨(quiet_iff.mp still).1,before node⟩

theorem Sound.checked {s : Service} (sound : Sound s) (busy : s.checker ≠ .idle) : s.loader = .loaded := by
  by_contra unready
  exact busy (sound.starting unready).2

theorem check_sound {s t : Service} (sound : Sound s) (taken : check s = some t) : Sound t := by
  unfold check at taken
  split at taken
  case h_2 => cases taken
  case h_1 idle =>
    split at taken
    case isTrue ready =>
      cases taken
      exact sound.checks s.unlisted ready.1 (by simp [idle,Checker.deletes]) (fun _ => rfl)
    case isFalse => cases taken

theorem listed_sound {s t : Service} (sound : Sound s) {states : Option Listing} (taken : listed s states = some t) :
    Sound t := by
  unfold listed at taken
  split at taken
  case h_2 => cases taken
  case h_1 listing =>
    cases taken
    apply sound.checks s.unlisted (sound.checked (by simp [listing])) (by simp [listing,Checker.deletes])
    intro node
    cases states <;> rfl

-- A pass turns to the release of a lease that the table has and no call is writing.
theorem Sound.releases {s : Service} (sound : Sound s) {states : Listing} {node : String} {lease : Lease}
    {left : List (String × Lease)} (before : ∀ node, s.checker.deletes node = false) (ready : s.loader = .loaded)
    (tabled : s.leases.get? node = some lease) (unwritten : ∀ call ∈ s.calls, call.node ≠ node) :
    Sound (release s states node lease left) := by
  obtain ⟨granted,calls,apart,_,kept,loading,_⟩ := sound
  rw [ready] at loading
  have fewer : ∀ pair, pair ∈ s.granted.filter (· ≠ (node,lease)) → pair ∈ s.granted := by
    intro pair member
    exact (List.mem_filter.mp member).1
  refine ⟨?_,?_,apart,?_,?_,?_,?_⟩
  · intro other held member
    exact granted other held (fewer _ member)
  · intro call present
    obtain ⟨tabled,stored,_,ungranted⟩ := calls call present
    refine ⟨tabled,stored,?_,?_⟩
    · exact decide_eq_false (Ne.symm (unwritten call present))
    · intro held member
      exact ungranted held (fewer _ member)
  · refine ⟨tabled,unwritten,?_⟩
    intro held member
    have same := loading node held (fewer _ member)
    rw [tabled] at same
    cases same
    simpa using (List.mem_filter.mp member).2
  · intro other held tabled still
    apply kept other held tabled
    apply quiet_iff.mpr
    exact ⟨(quiet_iff.mp still).1,before other⟩
  · change Loading _ s.loader
    rw [ready]
    intro other held member
    exact loading other held (fewer _ member)
  · intro unready
    exact absurd ready unready

theorem walk_parts (s : Service) (states : Listing) (node : String) (lease : Lease) (left : List (String × Lease)) :
    ∃ unlisted, walk s states node lease left = {s with unlisted,checker := .walking states left} := by
  unfold walk
  split
  · exact ⟨_,rfl⟩
  · split
    · exact ⟨_,rfl⟩
    · exact ⟨_,rfl⟩

theorem walks_sound {s t : Service} (sound : Sound s) (steady : settled s .walks = true) (taken : walks s = some t) :
    Sound t := by
  unfold walks at taken
  split at taken
  case h_3 => cases taken
  case h_2 walking =>
    cases taken
    exact sound.checks s.unlisted (sound.checked (by simp [walking])) (by simp [walking,Checker.deletes]) (fun _ => rfl)
  case h_1 states node lease left walking =>
    have ready := sound.checked (by simp [walking])
    obtain ⟨unlisted,walked⟩ := walk_parts s states node lease left
    have moved : Sound {s with unlisted,checker := .walking states left} :=
      sound.checks unlisted ready (by simp [walking,Checker.deletes]) (fun _ => rfl)
    cases taken
    rw [walked]
    split
    case isFalse => exact moved
    case isTrue freed =>
      simp only [settled,walking,freed,Bool.not_true,Bool.false_or,Bool.and_eq_true,decide_eq_true_eq,List.all_eq_true] at steady
      exact moved.releases (fun _ => rfl) ready steady.1 steady.2

theorem erase_ungranted {granted : List (String × Lease)} {node other : String} {held : Lease} (table : Dict String Lease)
    (ungranted : ∀ lease, (node,lease) ∉ granted) (member : (other,held) ∈ granted) :
    (table.erase node).get? other = table.get? other := by
  rw [Dict.get_erase,if_neg]
  intro same
  subst same
  exact ungranted held member

theorem deleteLands_sound {s t : Service} (sound : Sound s) (taken : deleteLands s = some t) : Sound t := by
  unfold deleteLands at taken
  split at taken
  case h_2 => cases taken
  case h_1 states node lease landed left deleting =>
    cases taken
    have ready := sound.checked (by simp [deleting])
    obtain ⟨granted,calls,apart,releasing,kept,loading,_⟩ := sound
    rw [deleting] at releasing
    obtain ⟨tabled,unwritten,ungranted⟩ := releasing
    refine ⟨?_,?_,apart,⟨tabled,unwritten,ungranted⟩,?_,?_,fun unready => absurd ready unready⟩
    · intro other held member
      exact (erase_ungranted _ ungranted member).trans (granted other held member)
    · intro call present
      obtain ⟨tabled,stored,unreleased,ungranted⟩ := calls call present
      rw [deleting] at unreleased
      refine ⟨tabled,?_,unreleased,ungranted⟩
      intro landed
      rw [Dict.get_erase,if_neg (Ne.symm (unwritten call present))]
      exact stored landed
    · intro other held tabled still
      obtain ⟨others,undeleted⟩ := quiet_iff.mp still
      have different : node ≠ other := of_decide_eq_false undeleted
      rw [Dict.get_erase,if_neg different]
      apply kept other held tabled
      apply quiet_iff.mpr
      refine ⟨others,?_⟩
      rw [deleting]
      exact undeleted
    · rw [ready] at loading
      dsimp only
      rw [ready]
      exact loading

theorem deleteEnds_sound {s t : Service} (sound : Sound s) {ok : Bool} (taken : deleteEnds s ok = some t) : Sound t := by
  unfold deleteEnds at taken
  split at taken
  case h_2 => cases taken
  case h_1 states node lease landed left deleting =>
    split at taken
    case isTrue => cases taken
    case isFalse =>
      cases taken
      have ready := sound.checked (by simp [deleting])
      obtain ⟨granted,calls,apart,releasing,kept,loading,_⟩ := sound
      rw [deleting] at releasing
      obtain ⟨tabled,unwritten,ungranted⟩ := releasing
      rw [released,if_pos tabled]
      refine ⟨granted,?_,apart,trivial,?_,?_,fun unready => absurd ready unready⟩
      · intro call present
        obtain ⟨tabled,stored,_,ungranted⟩ := calls call present
        refine ⟨?_,stored,rfl,ungranted⟩
        rw [Dict.get_erase,if_neg (Ne.symm (unwritten call present))]
        exact tabled
      · intro other held tabled still
        have different : node ≠ other := by
          intro same
          subst same
          simp at tabled
        rw [Dict.get_erase,if_neg different] at tabled
        apply kept other held tabled
        apply quiet_iff.mpr
        refine ⟨(quiet_iff.mp still).1,?_⟩
        rw [deleting]
        exact decide_eq_false different
      · rw [ready] at loading
        dsimp only
        rw [ready]
        intro other held member
        exact (erase_ungranted _ ungranted member).trans (loading other held member)

theorem next_sound {s t : Service} {action : Action} (sound : Sound s) (steady : settled s action = true)
    (taken : next s action = some t) : Sound t := by
  cases action with
  | acquire node lease => cases taken; exact acquire_sound sound steady
  | lands index => exact lands_sound sound taken
  | returns index => exact returns_sound sound taken
  | raises index => exact raises_sound sound taken
  | lists ok => exact lists_sound sound taken
  | reads ok => exact reads_sound sound taken
  | check => exact check_sound sound taken
  | listed states => exact listed_sound sound taken
  | walks => exact walks_sound sound steady taken
  | deleteLands => exact deleteLands_sound sound taken
  | deleteEnds ok => exact deleteEnds_sound sound taken
  | restart => cases taken; exact restart_sound sound

end Modelship.Deploy.Leases
