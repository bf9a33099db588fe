import Modelship.Foundation.Dict

namespace Modelship.Gateway
open Foundation

-- The table a gateway routes by, as the gateway coordinator computes it and as a
-- replica holds it.

inductive ReplicaState where
  | starting
  | updating
  | recovering
  | running
  | stopping
  | pendingMigration
  deriving DecidableEq

inductive ApplicationStatus where
  | notStarted
  | deploying
  | deployFailed
  | running
  | unhealthy
  | deleting
  deriving DecidableEq

structure ServeReplica where
  id : String
  state : ReplicaState

-- An application as Serve's details give it: its deployments, each with its replicas.
structure ServeApp where
  status : ApplicationStatus
  deployments : List (String × List ServeReplica)

structure StatusOverview where
  status : ApplicationStatus
  deployments : List (String × (ReplicaState → Nat))

def statusOverview (app : ServeApp) : StatusOverview :=
  ⟨app.status,app.deployments.map fun deployment =>
    (deployment.1,fun state => (deployment.2.map (·.state)).count state)⟩

def runningReplicaIds (app : ServeApp) : List String :=
  app.deployments.flatMap fun deployment => (deployment.2.filter (·.state = .running)).map (·.id)

def canServe (app : StatusOverview) : Bool :=
  match app.status with
  | .deleting => false
  | .running => true
  | _ => app.deployments.any fun deployment => deployment.2 .running > 0

-- `models` maps an app to its model.
structure Routing where
  models : Dict String String
  expected : List String

-- `targets` maps a model to its app. An app that two models name keeps the last.
def computeRouting (gateway : String) (targets : Dict String String) (apps : Dict String StatusOverview) : Option Routing :=
  if (apps.get? gateway).isNone then none else
  some ⟨(targets.entries.filter fun target => ((apps.get? target.2).map canServe).getD false).foldl
    (fun models target => models.set target.2 target.1) Dict.empty,targets.entries.map Prod.fst⟩

def apps (targets : Dict String String) : List String := targets.entries.map Prod.snd

theorem folded_apps {targets : List (String × String)} {models : Dict String String} {app : String}
    (found : app ∈ (targets.foldl (fun models target => models.set target.2 target.1) models).entries.map Prod.fst) :
    app ∈ models.entries.map Prod.fst ∨ app ∈ targets.map Prod.snd := by
  induction targets generalizing models with
  | nil => exact .inl found
  | cons target rest ih =>
      rcases ih found with earlier | later
      · rcases Dict.mem_put_keys earlier with here | before
        · exact .inr (by rw [here]; exact List.mem_cons_self)
        · exact .inl before
      · exact .inr (List.mem_cons_of_mem _ later)

-- Every app of a computed table is one its version names.
theorem computeRouting_apps {gateway : String} {targets : Dict String String} {listing : Dict String StatusOverview}
    {routing : Routing} {app : String} (computed : computeRouting gateway targets listing = some routing)
    (routed : app ∈ routing.models.entries.map Prod.fst) : app ∈ apps targets := by
  unfold computeRouting at computed
  split at computed
  · cases computed
  · cases computed
    rcases folded_apps routed with nothing | target
    · cases nothing
    · obtain ⟨entry,chosen,rfl⟩ := List.mem_map.mp target
      exact List.mem_map.mpr ⟨entry,(List.mem_filter.mp chosen).1,rfl⟩

theorem computeRouting_expected {gateway : String} {targets : Dict String String} {listing : Dict String StatusOverview}
    {routing : Routing} (computed : computeRouting gateway targets listing = some routing) :
    routing.expected = targets.entries.map Prod.fst := by
  unfold computeRouting at computed
  split at computed
  · cases computed
  · cases computed
    rfl

-- What `get_routing` answers.
structure Snapshot where
  models : Dict String String
  expected : List String
  generation : Int
  routing : Option Int

-- A gateway replica: `models` maps a model to its apps, each with a handle; `cards`
-- are the entries of its model list.
structure Replica where
  models : Dict String (List String)
  cards : List String
  expected : List String
  gen : Int
  routingSeq : Option Int

def Replica.routed (replica : Replica) : List String := replica.models.entries.flatMap (·.2)

def registerDeployment (replica : Replica) (app model : String) : Replica :=
  match replica.models.get? model with
  | none => {replica with models := replica.models.set model [app],cards := replica.cards ++ [model]}
  | some handles => {replica with models := replica.models.set model (if app ∈ handles then handles else handles ++ [app])}

def dropApp (replica : Replica) (app : String) : Replica :=
  match replica.models.entries.find? (app ∈ ·.2) with
  | none => replica
  | some (model,handles) =>
    if handles.erase app = [] then
      {replica with models := replica.models.erase model,cards := replica.cards.filter (· ≠ model)}
    else {replica with models := replica.models.set model (handles.erase app)}

def dropApps (replica : Replica) (names : List String) : Replica := names.foldl dropApp replica

-- The registrations of one application, in order: those whose handle does not
-- resolve are left out and named.
def registerAll (replica : Replica) (unresolved : List String) (desired : List (String × String)) : Replica × List String :=
  desired.foldl (fun (replica,failed) entry =>
    if entry.1 ∈ unresolved then (replica,failed ++ [entry.1]) else (registerDeployment replica entry.1 entry.2,failed))
    (replica,[])

-- The replica afterwards, and the apps it could not register.
def applyRouting (replica : Replica) (unresolved : List String) (desired : Dict String String) : Replica × List String :=
  let routed := replica.routed
  let (registered,failed) := registerAll replica unresolved (desired.entries.filter (·.1 ∉ routed))
  (dropApps registered (routed.filter fun app => (desired.get? app).isNone),failed)

-- Where an app failed, `_apply_routing` raises behind the routes and the generation
-- and seq stay as they are.
def applySnapshot (replica : Replica) (unresolved : List String) (snapshot : Snapshot) : Replica :=
  let (applied,failed) := applyRouting {replica with expected := snapshot.expected} unresolved snapshot.models
  if failed = [] then {applied with gen := snapshot.generation,routingSeq := snapshot.routing} else applied

theorem registerDeployment_routed {replica : Replica} {app : String} (model : String) (absent : app ∉ replica.routed) :
    (registerDeployment replica app model).routed.Perm (app :: replica.routed) := by
  unfold registerDeployment
  cases held : replica.models.get? model with
  | none =>
      have fresh : model ∉ replica.models.entries.map Prod.fst := by
        intro member
        obtain ⟨entry,present,rfl⟩ := List.mem_map.mp member
        rw [Dict.mem_get_some present] at held
        cases held
      simp only [Replica.routed,Dict.set,Dict.put_absent _ fresh,List.flatMap_append,List.flatMap_cons,List.flatMap_nil]
      exact List.perm_append_comm
  | some handles =>
      have present := Dict.get_some_mem held
      have free : app ∉ handles := fun member => absent (List.mem_flatMap.mpr ⟨_,present,member⟩)
      simp only [if_neg free]
      have longer : (handles ++ [app]).Perm ([app] ++ handles) := List.perm_append_comm
      exact Dict.put_gather [] [app] replica.models.distinct present longer

theorem dropApp_routed {replica : Replica} {app : String} (present : app ∈ replica.routed) :
    (app :: (dropApp replica app).routed).Perm replica.routed := by
  unfold dropApp
  cases found : replica.models.entries.find? (app ∈ ·.2) with
  | none =>
      obtain ⟨entry,member,within⟩ := List.mem_flatMap.mp present
      have missed := List.find?_eq_none.mp found entry member
      simp only [within,decide_true,not_true_eq_false] at missed
  | some entry =>
      obtain ⟨model,handles⟩ := entry
      have held : (model,handles) ∈ replica.models.entries := List.mem_of_find?_eq_some found
      have within : app ∈ handles := by simpa using List.find?_some found
      dsimp only
      split
      case isTrue last =>
        have alone : handles.Perm [app] := by
          have split := List.perm_cons_erase within
          rwa [last] at split
        exact (alone.symm.append_right _).trans (Dict.erase_gather replica.models.distinct held)
      case isFalse more =>
        exact Dict.put_gather [app] [] replica.models.distinct held (List.perm_cons_erase within).symm

theorem dropApp_absent {replica : Replica} {app : String} (absent : app ∉ replica.routed) :
    dropApp replica app = replica := by
  unfold dropApp
  cases found : replica.models.entries.find? (app ∈ ·.2) with
  | none => rfl
  | some entry =>
      have within : app ∈ entry.2 := by simpa using List.find?_some found
      exact absurd (List.mem_flatMap.mpr ⟨entry,List.mem_of_find?_eq_some found,within⟩) absent

theorem dropApp_parts {replica : Replica} (app : String) (once : replica.routed.Nodup) :
    (dropApp replica app).routed.Nodup ∧
      ∀ other, other ∈ (dropApp replica app).routed ↔ other ∈ replica.routed ∧ other ≠ app := by
  by_cases present : app ∈ replica.routed
  · have moved := dropApp_routed present
    obtain ⟨gone,left⟩ := List.nodup_cons.mp (moved.nodup_iff.mpr once)
    refine ⟨left,?_⟩
    intro other
    rw [← moved.mem_iff,List.mem_cons]
    constructor
    · intro member
      exact ⟨.inr member,fun equal => gone (equal ▸ member)⟩
    · intro ⟨member,apart⟩
      exact member.resolve_left apart
  · rw [dropApp_absent present]
    refine ⟨once,?_⟩
    intro other
    exact ⟨fun member => ⟨member,fun equal => present (equal ▸ member)⟩,fun member => member.1⟩

theorem dropApps_parts {replica : Replica} (names : List String) (once : replica.routed.Nodup) :
    (dropApps replica names).routed.Nodup ∧
      ∀ other, other ∈ (dropApps replica names).routed ↔ other ∈ replica.routed ∧ other ∉ names := by
  induction names generalizing replica with
  | nil => exact ⟨once,fun other => by simp [dropApps]⟩
  | cons app rest ih =>
      obtain ⟨left,members⟩ := dropApp_parts app once
      obtain ⟨still,others⟩ := ih left
      refine ⟨still,?_⟩
      intro other
      rw [List.mem_cons,not_or,← and_assoc,← members other]
      exact others other

theorem registerAll_parts {replica : Replica} (unresolved failed : List String) {desired : List (String × String)}
    (once : replica.routed.Nodup) (apart : (desired.map Prod.fst).Nodup) (fresh : ∀ entry ∈ desired, entry.1 ∉ replica.routed) :
    let after := (desired.foldl (fun (replica,failed) entry =>
      if entry.1 ∈ unresolved then (replica,failed ++ [entry.1]) else (registerDeployment replica entry.1 entry.2,failed))
      (replica,failed)).1
    after.routed.Nodup ∧ ∀ app ∈ after.routed, app ∈ replica.routed ∨ app ∈ desired.map Prod.fst := by
  induction desired generalizing replica failed with
  | nil => exact ⟨once,fun app member => .inl member⟩
  | cons entry rest ih =>
      obtain ⟨new,others⟩ := List.nodup_cons.mp apart
      simp only [List.foldl_cons]
      by_cases deferred : entry.1 ∈ unresolved
      · simp only [if_pos deferred]
        obtain ⟨still,members⟩ := ih (failed ++ [entry.1]) once others (fun later member => fresh later (List.mem_cons_of_mem _ member))
        refine ⟨still,?_⟩
        intro app member
        exact (members app member).imp id (List.mem_cons_of_mem _)
      · simp only [if_neg deferred]
        have moved := registerDeployment_routed entry.2 (fresh entry List.mem_cons_self)
        have onceMore := moved.nodup_iff.mpr (List.nodup_cons.mpr ⟨fresh entry List.mem_cons_self,once⟩)
        have freshStill : ∀ later ∈ rest, later.1 ∉ (registerDeployment replica entry.1 entry.2).routed := by
          intro later member present
          rcases List.mem_cons.mp (moved.mem_iff.mp present) with same | before
          · exact new (same ▸ List.mem_map.mpr ⟨later,member,rfl⟩)
          · exact fresh later (List.mem_cons_of_mem _ member) before
        obtain ⟨still,members⟩ := ih failed onceMore others freshStill
        refine ⟨still,?_⟩
        intro app member
        rcases members app member with routed | later
        · rcases List.mem_cons.mp (moved.mem_iff.mp routed) with rfl | before
          · exact .inr List.mem_cons_self
          · exact .inl before
        · exact .inr (List.mem_cons_of_mem _ later)

-- Whether or not every app could be registered, the apps routed to are among the
-- ones the table names.
theorem applyRouting_routed (replica : Replica) (unresolved : List String) (desired : Dict String String)
    (once : replica.routed.Nodup) :
    (applyRouting replica unresolved desired).1.routed.Nodup ∧
      ∀ app ∈ (applyRouting replica unresolved desired).1.routed, app ∈ desired.entries.map Prod.fst := by
  have fresh : ∀ entry ∈ desired.entries.filter (·.1 ∉ replica.routed), entry.1 ∉ replica.routed := by
    intro entry member
    simpa using (List.mem_filter.mp member).2
  have apart : ((desired.entries.filter (·.1 ∉ replica.routed)).map Prod.fst).Nodup :=
    (List.filter_sublist.map Prod.fst).nodup desired.distinct
  obtain ⟨onceMore,registered⟩ := registerAll_parts unresolved [] once apart fresh
  obtain ⟨left,members⟩ := dropApps_parts (replica.routed.filter fun app => (desired.get? app).isNone) onceMore
  refine ⟨left,?_⟩
  intro app member
  obtain ⟨present,kept⟩ := (members app).mp member
  rcases registered app present with before | added
  · cases wanted : desired.get? app with
    | none => exact absurd (List.mem_filter.mpr ⟨before,by rw [wanted]; rfl⟩) kept
    | some model => exact List.mem_map.mpr ⟨_,Dict.get_some_mem wanted,rfl⟩
  · exact (List.filter_sublist.map Prod.fst).subset added

def SameRest (one two : Replica) : Prop :=
  one.expected = two.expected ∧ one.gen = two.gen ∧ one.routingSeq = two.routingSeq

theorem SameRest.trans {one two three : Replica} (first : SameRest one two) (second : SameRest two three) :
    SameRest one three :=
  ⟨first.1.trans second.1,first.2.1.trans second.2.1,first.2.2.trans second.2.2⟩

theorem registerDeployment_rest (replica : Replica) (app model : String) :
    SameRest (registerDeployment replica app model) replica := by
  unfold registerDeployment
  split <;> exact ⟨rfl,rfl,rfl⟩

theorem dropApp_rest (replica : Replica) (app : String) : SameRest (dropApp replica app) replica := by
  unfold dropApp
  split
  · exact ⟨rfl,rfl,rfl⟩
  · split <;> exact ⟨rfl,rfl,rfl⟩

theorem dropApps_rest (replica : Replica) (names : List String) : SameRest (dropApps replica names) replica := by
  induction names generalizing replica with
  | nil => exact ⟨rfl,rfl,rfl⟩
  | cons app rest ih => exact (ih (dropApp replica app)).trans (dropApp_rest replica app)

theorem registerAll_rest (replica : Replica) (unresolved failed : List String) (desired : List (String × String)) :
    SameRest (desired.foldl (fun (replica,failed) entry =>
      if entry.1 ∈ unresolved then (replica,failed ++ [entry.1]) else (registerDeployment replica entry.1 entry.2,failed))
      (replica,failed)).1 replica := by
  induction desired generalizing replica failed with
  | nil => exact ⟨rfl,rfl,rfl⟩
  | cons entry rest ih =>
      simp only [List.foldl_cons]
      split
      · exact ih replica (failed ++ [entry.1])
      · exact (ih _ failed).trans (registerDeployment_rest replica entry.1 entry.2)

-- The generation and the seq a replica reports are not touched by the routes.
theorem applyRouting_rest (replica : Replica) (unresolved : List String) (desired : Dict String String) :
    SameRest (applyRouting replica unresolved desired).1 replica :=
  (dropApps_rest _ _).trans (registerAll_rest replica unresolved [] _)

end Modelship.Gateway
