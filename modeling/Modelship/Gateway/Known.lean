import Modelship.Gateway.Switched

namespace Modelship.Gateway
open Foundation Function

section
variable {home : String → String} {s t : Cluster}

-- A step that neither hands out nor applies a table.
structure Quiet (s t : Cluster) : Prop where
  grows : s.deploy.given ⊆ t.deploy.given
  handed : t.handed = s.handed
  applied : t.applied = s.applied
  carried : ∀ id snapshot, (t.members id).phase = .given snapshot → (s.members id).phase = .given snapshot

theorem Quiet.frame (deploy : t.deploy = s.deploy) (handed : t.handed = s.handed) (applied : t.applied = s.applied)
    (members : t.members = s.members) : Quiet s t := by
  refine ⟨?_,handed,applied,?_⟩
  · rw [deploy]
    exact List.Subset.refl _
  · rw [members]
    exact fun _ _ carried => carried

def Phase.carries : Phase → Bool
  | .given _ => true
  | _ => false

theorem enter_phase {id other : String} {phase : Phase} {snapshot : Snapshot}
    (carried : ((s.enter id phase).members other).phase = .given snapshot) :
    other = id ∧ phase = .given snapshot ∨ (s.members other).phase = .given snapshot := by
  unfold Cluster.enter at carried
  dsimp only at carried
  by_cases same : other = id
  · rw [same,update_self] at carried
    exact .inl ⟨same,carried⟩
  · rw [update_of_ne same] at carried
    exact .inr carried

theorem Quiet.enters {id : String} {phase : Phase} (quiet : Quiet s t) (empty : phase.carries = false) :
    Quiet s (t.enter id phase) := by
  refine ⟨quiet.grows,quiet.handed,quiet.applied,?_⟩
  intro other snapshot carried
  rcases enter_phase carried with ⟨_,rfl⟩ | before
  · cases empty
  · exact quiet.carried other snapshot before

theorem Quiet.refl (s : Cluster) : Quiet s s := Quiet.frame rfl rfl rfl rfl

theorem arrivePoll_quiet (id : String) (since : Int) (routing : Option Int) :
    Quiet s (arrivePoll home s id since routing) := by
  have recorded : ∀ c, Quiet s {s with coordinator := c} := fun c => Quiet.frame rfl rfl rfl rfl
  unfold arrivePoll
  dsimp only
  split
  · exact (recorded _).enters rfl
  · split
    · exact (recorded _).enters rfl
    · exact (recorded _).enters rfl

-- What a step does with tables.
inductive Tables (home : String → String) (action : Action) (s t : Cluster) : Prop where
  | quiet (quiet : Quiet s t)
  | hands (id : String) (answering : action = .answers id) (computed : s.coordinator.computed = true)
      (after : t = {s with handed := s.handed ++ [handedNow home s id]}.enter id (.given (getRouting s.coordinator (home id))))
  | applies (id : String) (unresolved : List String) (snapshot : Snapshot) (carried : (s.members id).phase = .given snapshot)
      (after : t = {s with
        members := update s.members id ((s.members id).apply unresolved snapshot)
        applied := s.applied ++ [(id,snapshot)]})

theorem next_tables {action : Action} (taken : next home s action = some t) : Tables home action s t := by
  cases next_goes taken with
  | route gateway apps => exact .quiet ⟨List.subset_append_left _ _,rfl,rfl,fun _ _ carried => carried⟩
  | loads gateway apps blank => exact .quiet ⟨List.subset_append_left _ _,rfl,rfl,fun _ _ carried => carried⟩
  | counts gateway apps => exact .quiet ⟨List.Subset.refl _,rfl,rfl,fun _ _ carried => carried⟩
  | deployRestarts clock late => exact .quiet ⟨List.Subset.refl _,rfl,rfl,fun _ _ carried => carried⟩
  | polls id idle => exact .quiet ((Quiet.refl s).enters rfl)
  | arrives id since routing polling => exact .quiet (arrivePoll_quiet id since routing)
  | enters action id phase bare =>
      refine .quiet ((Quiet.refl s).enters ?_)
      cases phase with
      | given => exact bare.elim
      | _ => rfl
  | asks id asking =>
      have watched : Quiet s {s with coordinator := s.coordinator.watch (home id)} := Quiet.frame rfl rfl rfl rfl
      exact .quiet (watched.enters rfl)
  | hands id waiting computed => exact .hands id rfl computed rfl
  | applies id unresolved snapshot carried => exact .applies id unresolved snapshot carried rfl
  | fails id =>
      have left : ∀ strays, Quiet s {s with strays} := fun strays => Quiet.frame rfl rfl rfl rfl
      exact .quiet ((left _).enters rfl)
  | _ => exact .quiet (Quiet.frame rfl rfl rfl rfl)

-- A table computed from a version of its gateway, or the blank one of a coordinator
-- that has none published.
def Known (given : List (String × Version)) (handed : Handed) : Prop :=
  handed.computed = true ∧
  (handed.published = true ∧ (∃ version, Computed given handed.gateway version handed.snapshot.models handed.snapshot.expected ∧
      handed.snapshot.routing = some version.seq) ∨
    handed.published = false ∧ Blank handed.snapshot)

def IsHanded (home : String → String) (s : Cluster) (id : String) (snapshot : Snapshot) : Prop :=
  ∃ handed ∈ s.handed, handed.gateway = home id ∧ handed.snapshot = snapshot

structure Traced (home : String → String) (s : Cluster) : Prop where
  handed : ∀ handed ∈ s.handed, Known s.deploy.given handed
  carried : ∀ id snapshot, (s.members id).phase = .given snapshot → IsHanded home s id snapshot
  applied : ∀ entry ∈ s.applied, IsHanded home s entry.1 entry.2

theorem Known.mono {given more : List (String × Version)} {handed : Handed} (known : Known given handed)
    (grows : given ⊆ more) : Known more handed := by
  obtain ⟨computed,⟨published,version,table,routing⟩ | blank⟩ := known
  · exact ⟨computed,.inl ⟨published,version,table.mono grows,routing⟩⟩
  · exact ⟨computed,.inr blank⟩

theorem Valid.knows (valid : Valid home s) (id : String) (computed : s.coordinator.computed = true) :
    Known s.deploy.given (handedNow home s id) := by
  refine ⟨computed,?_⟩
  rcases valid.coordinator.published (home id) with ⟨table,seq⟩ | ⟨version,routing,known,table,seq,_⟩
  · refine .inr ⟨?_,?_,?_,seq⟩
    · simp [handedNow,table]
    · simp [handedNow,getRouting,table]
    · simp [handedNow,getRouting,table]
  · refine .inl ⟨?_,version,?_,seq⟩
    · simp [handedNow,table]
    · simpa [handedNow,getRouting,table] using known

theorem IsHanded.mono {id : String} {snapshot : Snapshot} (handed : IsHanded home s id snapshot)
    (grows : s.handed ⊆ t.handed) : IsHanded home t id snapshot := by
  obtain ⟨entry,member,same⟩ := handed
  exact ⟨entry,grows member,same⟩

theorem next_traced {action : Action} (valid : Valid home s) (traced : Traced home s)
    (taken : next home s action = some t) : Traced home t := by
  cases next_tables taken with
  | quiet quiet =>
      have same : s.handed ⊆ t.handed := by
        rw [quiet.handed]
        exact List.Subset.refl _
      refine ⟨?_,?_,?_⟩
      · rw [quiet.handed]
        intro handed member
        exact (traced.handed handed member).mono quiet.grows
      · intro id snapshot carried
        exact (traced.carried id snapshot (quiet.carried id snapshot carried)).mono same
      · rw [quiet.applied]
        intro entry member
        exact (traced.applied entry member).mono same
  | hands id _ computed after =>
      subst after
      have grows : s.handed ⊆ s.handed ++ [handedNow home s id] := List.subset_append_left _ _
      refine ⟨?_,?_,?_⟩
      · intro handed member
        rcases List.mem_append.mp member with old | new
        · exact traced.handed handed old
        · rw [List.mem_singleton.mp new]
          exact valid.knows id computed
      · intro other snapshot carried
        rcases enter_phase carried with ⟨rfl,same⟩ | before
        · cases same
          exact ⟨handedNow home s other,List.mem_append_right _ List.mem_cons_self,rfl,rfl⟩
        · exact (traced.carried other snapshot before).mono grows
      · intro entry member
        exact (traced.applied entry member).mono grows
  | applies id unresolved snapshot carried after =>
      subst after
      refine ⟨traced.handed,?_,?_⟩
      · intro other table carries
        dsimp only at carries
        by_cases same : other = id
        · rw [same,update_self] at carries
          cases carries
        · rw [update_of_ne same] at carries
          exact traced.carried other table carries
      · intro entry member
        rcases List.mem_append.mp member with old | new
        · exact traced.applied entry old
        · rw [List.mem_singleton.mp new]
          exact traced.carried id snapshot carried

theorem runs_traced {seq clock : Int} {actions : List Action}
    (ran : execute (next home) (start seq clock) actions = some s) : Valid home s ∧ Traced home s := by
  have kept : ∀ s action t, Valid home s ∧ Traced home s → next home s action = some t → Valid home t ∧ Traced home t := by
    intro s action t both taken
    exact ⟨next_valid both.1 taken,next_traced both.1 both.2 taken⟩
  have begun : Traced home (start seq clock) := ⟨nofun,nofun,nofun⟩
  exact execute_invariant kept ⟨start_valid home seq clock,begun⟩ ran

-- `get_routing` is answered from a table that the coordinator has for the gateway.
def answersTable (home : String → String) (s : Cluster) : Action → Bool
  | .answers id => (s.coordinator.routing (home id)).isSome
  | _ => true

def Published (s : Cluster) : Prop := ∀ handed ∈ s.handed, handed.published = true

theorem next_published {action : Action} (published : Published s) (tabled : answersTable home s action = true)
    (taken : next home s action = some t) : Published t := by
  intro handed member
  cases next_tables taken with
  | quiet quiet =>
      rw [quiet.handed] at member
      exact published handed member
  | hands id answering _ after =>
      subst after answering
      rcases List.mem_append.mp member with old | new
      · exact published handed old
      · rw [List.mem_singleton.mp new]
        exact tabled
  | applies id unresolved snapshot carried after =>
      subst after
      exact published handed member

theorem runs_published {seq clock : Int} {actions : List Action}
    (tabled : Meets (next home) (fun s action => answersTable home s action = true) (start seq clock) actions)
    (ran : execute (next home) (start seq clock) actions = some s) : Published s := by
  have begun : Published (start seq clock) := by
    intro handed member
    cases member
  exact meets_invariant (fun _ _ _ published meets taken => next_published published meets taken) begun tabled ran

end

-- Each table a replica applies was handed out after a finished pass: computed from a
-- version of the gateway, or blank where the coordinator had none published.
theorem applied_handed (home : String → String) {seq clock : Int} {actions : List Action} {s : Cluster}
    {id : String} {snapshot : Snapshot} (ran : execute (next home) (start seq clock) actions = some s)
    (applied : (id,snapshot) ∈ s.applied) :
    ∃ handed ∈ s.handed, handed.gateway = home id ∧ handed.snapshot = snapshot ∧ Known s.deploy.given handed := by
  obtain ⟨_,traced⟩ := runs_traced ran
  obtain ⟨handed,member,gateway,same⟩ := traced.applied (id,snapshot) applied
  exact ⟨handed,member,gateway,same,traced.handed handed member⟩

-- Each table a replica applies was computed from a version of the gateway, in a run where no
-- gateway coordinator without a table for the gateway answers for it.
theorem applied_tables_are_known (home : String → String) {seq clock : Int} {actions : List Action} {s : Cluster}
    {id : String} {snapshot : Snapshot}
    (tabled : Meets (next home) (fun s action => answersTable home s action = true) (start seq clock) actions)
    (ran : execute (next home) (start seq clock) actions = some s) (applied : (id,snapshot) ∈ s.applied) :
    ∃ version, Computed s.deploy.given (home id) version snapshot.models snapshot.expected ∧
      snapshot.routing = some version.seq := by
  obtain ⟨handed,member,gateway,rfl,_,computed | blank⟩ := applied_handed home ran applied
  · rw [← gateway]
    exact computed.2
  · have published := runs_published tabled ran handed member
    rw [blank.1] at published
    cases published

-- A gateway coordinator restarts, and its first pass cannot read the routing versions.
def unknownVersion : List Action :=
  [.route "g" ⟨[("m","g.m-0123456789")],List.nodup_singleton "m"⟩,.read ⟨[("g",⟨.running,[]⟩),("g.m-0123456789",⟨.running,[]⟩)],by decide⟩,
    .look,.finishPass true,.syncs "r",.askArrives "r",.answers "r",.applies "r" [],.restarts 5000,
    .read ⟨[("g",⟨.running,[]⟩),("g.m-0123456789",⟨.running,[]⟩)],by decide⟩,.finishPass false,.polls "r",.pollArrives "r",
    .hears "r",.askArrives "r",.answers "r"]

theorem applied_tables_are_known_computed :
    ∃ s snapshot version, execute (next fun _ => "g") (start 0 0) (unknownVersion.take 8) = some s ∧
      ("r",snapshot) ∈ s.applied ∧ snapshot.routing = some 1 ∧
      Computed s.deploy.given "g" version snapshot.models snapshot.expected ∧ version.seq = 1 := by
  have run : (execute (next fun _ => "g") (start 0 0) (unknownVersion.take 8)).map (fun s =>
      s.applied.map fun entry => (entry.1,entry.2.routing)) = some [("r",some 1)] := by decide +kernel
  obtain ⟨s,ran,applied⟩ := Option.map_eq_some_iff.mp run
  obtain ⟨entry,single,same⟩ := List.map_eq_singleton_iff.mp applied
  obtain ⟨name,routing⟩ := Prod.mk.injEq _ _ _ _ ▸ same
  have member : ("r",entry.2) ∈ s.applied := by
    rw [single,← name]
    exact List.mem_singleton_self entry
  have tabled : Meets (next fun _ => "g") (fun s action => answersTable (fun _ => "g") s action = true) (start 0 0)
      (unknownVersion.take 8) := by decide +kernel
  obtain ⟨version,computed,seq⟩ := applied_tables_are_known (fun _ => "g") tabled ran member
  rw [routing] at seq
  exact ⟨s,entry.2,version,ran,member,routing,computed,(Option.some.inj seq).symm⟩

-- The replica drops its route although the gateway's version names the app.
theorem unknown_version_drops_routes :
    ∃ s t snapshot, execute (next fun _ => "g") (start 0 0) unknownVersion = some s ∧
      next (fun _ => "g") s (.applies "r" []) = some t ∧ ("r",snapshot) ∈ t.applied ∧
      (s.members "r").replica.routed = ["g.m-0123456789"] ∧ (t.members "r").replica.routed = [] ∧
      ¬ ∃ version, Computed t.deploy.given "g" version snapshot.models snapshot.expected := by
  have run : (((execute (next fun _ => "g") (start 0 0) unknownVersion).bind fun s =>
      (next (fun _ => "g") s (.applies "r" [])).map (s,·)).any fun (s,t) =>
        (s.members "r").replica.routed = ["g.m-0123456789"] ∧ (t.members "r").replica.routed = [] ∧
        t.applied.map (fun entry => (entry.1,entry.2.expected)) = [("r",["m"]),("r",[])] ∧
        t.deploy.given.map (fun entry => (entry.1,entry.2.apps.entries)) = [("g",[("m","g.m-0123456789")])]) = true := by
    decide +kernel
  obtain ⟨⟨s,t⟩,both,seen⟩ := (Option.any_eq_true _ _).mp run
  obtain ⟨_,ran,rest⟩ := Option.bind_eq_some_iff.mp both
  obtain ⟨_,stepped,same⟩ := Option.map_eq_some_iff.mp rest
  cases same
  rw [decide_eq_true_eq] at seen
  obtain ⟨before,after,applied,given_⟩ := seen
  have blank : ("r",[]) ∈ t.applied.map fun entry => (entry.1,entry.2.expected) := by
    rw [applied]
    exact List.mem_cons_of_mem _ List.mem_cons_self
  obtain ⟨⟨id,snapshot⟩,member,same⟩ := List.mem_map.mp blank
  obtain ⟨rfl,nothing⟩ := Prod.mk.inj same
  refine ⟨s,t,snapshot,ran,stepped,member,before,after,?_⟩
  intro known
  obtain ⟨version,there,listing,routing,computed,_,expected⟩ := known
  have only : ("g",version.apps.entries) ∈ t.deploy.given.map fun entry => (entry.1,entry.2.apps.entries) :=
    List.mem_map.mpr ⟨_,there,rfl⟩
  rw [given_,List.mem_singleton] at only
  have names := computeRouting_expected computed
  rw [(Prod.mk.inj only).2,← expected] at names
  dsimp only at nothing
  rw [nothing] at names
  cases names

end Modelship.Gateway
