import Modelship.Gateway.Cutover
import Modelship.Gateway.Known

namespace Modelship.Gateway
open Foundation Function

-- A generation stands for one table: a replica at a generation holds the table that the
-- coordinator hands out under it.

def IsApp (gateway app model : String) : Prop :=
  ∃ fingerprint, Modelship.Deploy.IsFingerprint fingerprint.toList ∧
    app = Modelship.Deploy.deploymentName gateway model fingerprint

-- The fingerprint is read off the name's end.
instance decidableIsApp (gateway app model : String) : Decidable (IsApp gateway app model) :=
  let print := app.toList.drop (app.toList.length - Modelship.Deploy.fingerprintLen)
  decidable_of_iff ((print.length = Modelship.Deploy.fingerprintLen ∧ print.all Modelship.Deploy.isHex) ∧
      app = Modelship.Deploy.deploymentName gateway model (String.ofList print)) (by
    constructor
    · intro ⟨printed,same⟩
      exact ⟨String.ofList print,by simpa [Modelship.Deploy.IsFingerprint] using printed,same⟩
    · intro ⟨fingerprint,printed,same⟩
      have read : print = fingerprint.toList := by
        have chars : app.toList = (gateway.toList ++ '.' :: (model.toList ++ ['-'])) ++ fingerprint.toList := by
          rw [same]
          simp [Modelship.Deploy.deploymentName]
        change app.toList.drop (app.toList.length - Modelship.Deploy.fingerprintLen) = fingerprint.toList
        rw [chars,List.length_append,printed.1,Nat.add_sub_cancel,List.drop_left]
      rw [read,String.ofList_toList]
      exact ⟨printed,same⟩)

theorem IsApp.single {gateway app model other : String} (one : IsApp gateway app model) (two : IsApp gateway app other) :
    model = other := by
  obtain ⟨print,printed,rfl⟩ := one
  obtain ⟨last,ended,same⟩ := two
  exact Modelship.Deploy.deploymentName_model printed ended same

-- Each app of a version is named after its model.
def Named (gateway : String) (targets : Dict String String) : Prop :=
  ∀ target ∈ targets.entries, IsApp gateway target.2 target.1

theorem folded_target {targets : List (String × String)} {models : Dict String String} {app model : String}
    (found : (targets.foldl (fun models target => models.set target.2 target.1) models).get? app = some model) :
    models.get? app = some model ∨ (model,app) ∈ targets := by
  induction targets generalizing models with
  | nil => exact .inl found
  | cons target rest ih =>
      rcases ih found with earlier | later
      · rw [Dict.get_set] at earlier
        split at earlier
        · rename_i here
          cases earlier
          exact .inr (here ▸ List.mem_cons_self)
        · exact .inl earlier
      · exact .inr (List.mem_cons_of_mem _ later)

theorem computeRouting_target {gateway : String} {targets : Dict String String} {listing : Dict String StatusOverview}
    {routing : Routing} {app model : String} (computed : computeRouting gateway targets listing = some routing)
    (routed : routing.models.get? app = some model) : (model,app) ∈ targets.entries := by
  unfold computeRouting at computed
  split at computed
  · cases computed
  · cases computed
    rcases folded_target routed with nothing | target
    · cases nothing
    · exact (List.mem_filter.mp target).1

-- What a later table owes an earlier one.
def Older (one two : Snapshot) : Prop :=
  one.generation < two.generation ∨
    one.generation = two.generation ∧ (∀ app, one.models.get? app = two.models.get? app) ∧ one.routing = two.routing

theorem Older.refl (one : Snapshot) : Older one one := .inr ⟨rfl,fun _ => rfl,rfl⟩

theorem Older.trans {one two three : Snapshot} (first : Older one two) (second : Older two three) : Older one three := by
  rcases first with less | ⟨level,models,routing⟩
  · rcases second with more | ⟨same,_⟩
    · exact .inl (less.trans more)
    · exact .inl (same ▸ less)
  · rcases second with more | ⟨same,others,last⟩
    · exact .inl (level ▸ more)
    · exact .inr ⟨level.trans same,fun app => (models app).trans (others app),routing.trans last⟩

-- The replica's table is the snapshot's.
def Holds (replica : Replica) (snapshot : Snapshot) : Prop :=
  (∀ app model, Routes replica app model ↔ snapshot.models.get? app = some model) ∧ replica.routingSeq = snapshot.routing

def Behind (replica : Replica) (snapshot : Snapshot) : Prop :=
  replica.gen < snapshot.generation ∨ replica.gen = snapshot.generation ∧ Holds replica snapshot

theorem Behind.trans {replica : Replica} {one two : Snapshot} (behind : Behind replica one) (older : Older one two) :
    Behind replica two := by
  rcases behind with less | ⟨level,routes,seq⟩
  · rcases older with more | ⟨same,_⟩
    · exact .inl (less.trans more)
    · exact .inl (same ▸ less)
  · rcases older with more | ⟨same,models,routing⟩
    · exact .inl (level ▸ more)
    · exact .inr ⟨level.trans same,fun app model => models app ▸ routes app model,seq.trans routing⟩

def Labelled (gateway : String) (replica : Replica) : Prop := ∀ app model, Routes replica app model → IsApp gateway app model

section
variable {gateway : String} {replica : Replica} {snapshot : Snapshot}

theorem applySnapshot_routes (snapshot : Snapshot) (unresolved : List String) (tidy : Tidy replica) :
    Tidy (applySnapshot replica unresolved snapshot) ∧
    ∀ app model, Routes (applySnapshot replica unresolved snapshot) app model ↔
      Routes replica app model ∧ (snapshot.models.get? app).isSome ∨
        snapshot.models.get? app = some model ∧ app ∉ replica.routed ∧ app ∉ unresolved := by
  have kept : Tidy {replica with expected := snapshot.expected} := ⟨tidy.once,tidy.cards,tidy.served⟩
  obtain ⟨still,routes,_⟩ := applyRouting_table unresolved snapshot.models kept
  obtain ⟨models,cards⟩ := applySnapshot_tables replica unresolved snapshot
  generalize applyRouting {replica with expected := snapshot.expected} unresolved snapshot.models = applied at *
  refine ⟨⟨?_,?_,?_⟩,?_⟩
  · unfold Replica.routed
    rw [models]
    exact still.once
  · rw [models,cards]
    exact still.cards
  · rw [models]
    exact still.served
  · intro app model
    unfold Routes
    rw [models]
    exact routes app model

-- A snapshot applied in full is held; one that failed leaves the replica behind it.
theorem Behind.applies (unresolved : List String) (tidy : Tidy replica) (labelled : Labelled gateway replica)
    (named : ∀ app model, snapshot.models.get? app = some model → IsApp gateway app model) (behind : Behind replica snapshot) :
    Behind (applySnapshot replica unresolved snapshot) snapshot ∧ Labelled gateway (applySnapshot replica unresolved snapshot) := by
  have routes := (applySnapshot_routes snapshot unresolved tidy).2
  have kept : Tidy {replica with expected := snapshot.expected} := ⟨tidy.once,tidy.cards,tidy.served⟩
  have failing := (applyRouting_table unresolved snapshot.models kept).2.2
  constructor
  · by_cases failed : (applyRouting {replica with expected := snapshot.expected} unresolved snapshot.models).2 = []
    · have resolved : ∀ app, (snapshot.models.get? app).isSome → app ∉ replica.routed → app ∉ unresolved := by
        intro app wanted absent deferred
        have listed := (failing app).mpr ⟨wanted,absent,deferred⟩
        rw [failed] at listed
        cases listed
      refine .inr ⟨?_,?_,?_⟩
      · unfold applySnapshot
        simp only [if_pos failed]
      · intro app model
        rw [routes app model]
        constructor
        · intro either
          rcases either with ⟨held,wanted⟩ | ⟨found,_⟩
          · obtain ⟨other,found⟩ := Option.isSome_iff_exists.mp wanted
            rw [found,(named app other found).single (labelled app model held)]
          · exact found
        · intro found
          have wanted : (snapshot.models.get? app).isSome := by
            rw [found]
            rfl
          by_cases there : app ∈ replica.routed
          · obtain ⟨other,held⟩ := routed_routes.mp there
            exact .inl ⟨(labelled app other held).single (named app model found) ▸ held,wanted⟩
          · exact .inr ⟨found,there,resolved app wanted there⟩
      · unfold applySnapshot
        simp only [if_pos failed]
    · -- the failed app was not routed to, so that this generation is new
      have gen : (applySnapshot replica unresolved snapshot).gen = replica.gen := by
        unfold applySnapshot
        simp only [if_neg failed]
        exact (applyRouting_rest {replica with expected := snapshot.expected} unresolved snapshot.models).2.1
      rcases behind with less | ⟨_,held,_⟩
      · exact .inl (gen ▸ less)
      · obtain ⟨app,listed⟩ := List.exists_mem_of_ne_nil _ failed
        obtain ⟨wanted,absent,_⟩ := (failing app).mp listed
        obtain ⟨model,found⟩ := Option.isSome_iff_exists.mp wanted
        exact absurd (routed_routes.mpr ⟨model,(held app model).mpr found⟩) absent
  · intro app model held
    rcases (routes app model).mp held with ⟨before,_⟩ | ⟨found,_⟩
    · exact labelled app model before
    · exact named app model found

end

-- The parts of the coordinator that a replica's table depends on.
structure Keeps (c d : Coordinator) : Prop where
  routing : d.routing = c.routing
  seqs : d.seqs = c.seqs
  firstGeneration : d.firstGeneration = c.firstGeneration
  generation : d.generation = c.generation
  computed : d.computed = c.computed

section
variable {c d : Coordinator}

theorem Keeps.refl (c : Coordinator) : Keeps c c := ⟨rfl,rfl,rfl,rfl,rfl⟩

theorem Keeps.generationOf (keeps : Keeps c d) (gateway : String) : d.generationOf gateway = c.generationOf gateway := by
  unfold Coordinator.generationOf
  rw [keeps.generation,keeps.firstGeneration]

theorem Keeps.getRouting (keeps : Keeps c d) (gateway : String) : getRouting d gateway = getRouting c gateway := by
  unfold Gateway.getRouting
  rw [keeps.routing,keeps.seqs,keeps.generationOf gateway]

theorem record_keeps (c : Coordinator) (gateway id : String) (since : Int) (now : Nat) (routing : Option Int) :
    Keeps c (record (c.watch gateway) gateway id since now routing) := by
  cases routing with
  | none => exact ⟨rfl,rfl,rfl,rfl,rfl⟩
  | some seq => exact ⟨rfl,rfl,rfl,rfl,rfl⟩

theorem switched_keeps (c : Coordinator) (now : Nat) (gateway : String) (routing : Int) :
    Keeps c (switched c now gateway routing).1 := by
  unfold switched
  split
  · exact Keeps.refl c
  · exact ⟨rfl,rfl,rfl,rfl,rfl⟩

theorem fetchVersions_keeps {answered : Bool} {call : Option Call} (done : fetchVersions c answered call = some d) :
    Keeps c d := by
  unfold fetchVersions at done
  split at done
  · cases done
    split
    · exact ⟨rfl,rfl,rfl,rfl,rfl⟩
    · exact Keeps.refl c
  · split at done
    · cases done
    · cases done
      exact Keeps.refl c

-- Whether `_publish` finds a change.
def moved (c : Coordinator) (gateway : String) (routing : Routing) (seq : Int) : Bool :=
  ((c.routing gateway).map fun previous => !sameTable previous routing).getD true || c.seqs gateway ≠ some seq

theorem publish_generation (c : Coordinator) (gateway : String) (routing : Routing) (seq : Int) (other : String) :
    (publish c gateway routing seq).generationOf other =
      if other = gateway ∧ moved c gateway routing seq then c.generationOf gateway + 1 else c.generationOf other := by
  have after : (publish c gateway routing seq).generationOf other =
      (if moved c gateway routing seq then bump {c with routing := update c.routing gateway (some routing)} gateway
        else {c with routing := update c.routing gateway (some routing)}).generationOf other := rfl
  rw [after]
  cases moved c gateway routing seq with
  | false => simp [Coordinator.generationOf]
  | true =>
      by_cases here : other = gateway
      · simp [Coordinator.generationOf,bump,here]
      · simp [Coordinator.generationOf,bump,here]

theorem publish_older (c : Coordinator) (gateway : String) (routing : Routing) (seq : Int) (other : String) :
    Older (getRouting c other) (getRouting (publish c gateway routing seq) other) := by
  obtain ⟨tables,seqs,_,_⟩ := publish_fields c gateway routing seq
  have generation := publish_generation c gateway routing seq other
  by_cases here : other = gateway
  · cases changes : moved c gateway routing seq with
    | true =>
        rw [if_pos ⟨here,changes⟩] at generation
        left
        change c.generationOf other < (publish c gateway routing seq).generationOf other
        rw [generation,here]
        omega
    | false =>
        rw [if_neg (fun both => absurd both.2 (by rw [changes]; nofun))] at generation
        obtain ⟨changed,level⟩ := Bool.or_eq_false_iff.mp changes
        cases published : c.routing gateway with
        | none =>
            rw [published] at changed
            cases changed
        | some previous =>
            rw [published,Option.map_some,Option.getD_some,Bool.not_eq_false'] at changed
            have perm : previous.models.entries.Perm routing.models.entries :=
              of_decide_eq_true (Bool.and_eq_true_iff.mp changed).1
            refine .inr ⟨generation.symm,?_,?_⟩
            · intro app
              simp only [Gateway.getRouting,tables,here,update_self,published,Option.map_some,Option.getD_some]
              exact Dict.get_perm perm app
            · simp only [Gateway.getRouting,seqs,here,update_self]
              simpa using level
  · rw [if_neg (fun both => here both.1)] at generation
    refine .inr ⟨generation.symm,?_,?_⟩
    · intro app
      simp only [Gateway.getRouting,tables,update_of_ne here]
    · simp only [Gateway.getRouting,seqs,update_of_ne here]

theorem computeGateway_older (now : Nat) (listing : Dict String ServeApp) (c : Coordinator) (gateway other : String) :
    Older (getRouting c other) (getRouting (computeGateway now listing c gateway) other) := by
  rcases computeGateway_cases now listing c gateway with same | ⟨version,routing,running,_,_,after⟩
  · rw [same]
    exact Older.refl _
  · rw [after]
    exact publish_older {c with replicas := update c.replicas gateway running} gateway routing version.seq other

theorem pass_older (now : Nat) (listing : Dict String ServeApp) (gateways : List String) (c : Coordinator) (other : String) :
    Older (getRouting c other) (getRouting (gateways.foldl (computeGateway now listing) c) other) := by
  induction gateways generalizing c with
  | nil => exact Older.refl _
  | cons gateway rest ih => exact (computeGateway_older now listing c gateway other).trans (ih _)

end

-- What the callers see to: a version's apps are named by `deployment_name`, and a new
-- coordinator's millisecond clock is past every generation handed out before.
def Promised (s : Cluster) : Action → Prop
  | .route gateway targets => Named gateway targets
  | .load gateway targets => Named gateway targets
  | .restarts clock => 0 < clock ∧ ∀ handed ∈ s.handed, handed.snapshot.generation < clock
  | _ => True

instance decidablePromised (s : Cluster) : (action : Action) → Decidable (Promised s action)
  | .route gateway targets => inferInstanceAs (Decidable (∀ target ∈ targets.entries, IsApp gateway target.2 target.1))
  | .load gateway targets => inferInstanceAs (Decidable (∀ target ∈ targets.entries, IsApp gateway target.2 target.1))
  | .restarts clock => inferInstanceAs (Decidable (0 < clock ∧ ∀ handed ∈ s.handed, handed.snapshot.generation < clock))
  | .tick _ | .deployRestarts _ | .read _ | .look | .finishPass _ | .polls _ | .pollArrives _ | .pollReturns _ | .hears _
  | .syncs _ | .askArrives _ | .answers _ | .applies _ _ | .fails _ | .strayArrives _ | .waitSwitched _ _ _ | .checks _ =>
    isTrue trivial

def Gives : Action → String × Version → Prop
  | .route gateway targets,entry => entry.1 = gateway ∧ entry.2.apps = targets
  | .load gateway targets,entry => entry.1 = gateway ∧ entry.2.apps = targets
  | _,_ => False

-- A phase that a replica enters on its own.
def Light (replica : Replica) : Phase → Prop
  | .polling since _ => since = replica.gen
  | .held .. => False
  | .given _ => False
  | _ => True

section
variable {home : String → String} {s t : Cluster}

-- A step that moves no table.
structure Still (s : Cluster) (action : Action) (t : Cluster) : Prop where
  given : ∀ entry ∈ t.deploy.given, entry ∈ s.deploy.given ∨ Gives action entry
  coordinator : Keeps s.coordinator t.coordinator
  incarnation : t.incarnation = s.incarnation
  handed : t.handed = s.handed
  replica : ∀ id, (t.members id).replica = (s.members id).replica
  phase : ∀ id, (t.members id).phase = (s.members id).phase ∨ Light (s.members id).replica (t.members id).phase

theorem Still.frame {action : Action} (deploy : t.deploy.given = s.deploy.given) (coordinator : Keeps s.coordinator t.coordinator)
    (incarnation : t.incarnation = s.incarnation) (handed : t.handed = s.handed) (members : t.members = s.members) :
    Still s action t := by
  refine ⟨?_,coordinator,incarnation,handed,?_,?_⟩
  · rw [deploy]
    exact fun _ member => .inl member
  · rw [members]
    exact fun _ => rfl
  · rw [members]
    exact fun _ => .inl rfl

theorem enter_replica (s : Cluster) (id other : String) (phase : Phase) :
    ((s.enter id phase).members other).replica = (s.members other).replica := by
  unfold Cluster.enter
  dsimp only
  by_cases same : other = id
  · rw [same,update_self]
  · rw [update_of_ne same]

theorem enter_phases (s : Cluster) (id other : String) (phase : Phase) :
    ((s.enter id phase).members other).phase = if other = id then phase else (s.members other).phase := by
  unfold Cluster.enter
  dsimp only
  by_cases same : other = id
  · rw [same,update_self,if_pos rfl]
  · rw [update_of_ne same,if_neg same]

theorem Still.enters {action : Action} {id : String} {phase : Phase} (still : Still s action t)
    (light : Light (s.members id).replica phase) : Still s action (t.enter id phase) := by
  refine ⟨still.given,still.coordinator,still.incarnation,still.handed,?_,?_⟩
  · intro other
    exact (enter_replica t id other phase).trans (still.replica other)
  · intro other
    rw [enter_phases]
    by_cases same : other = id
    · rw [if_pos same,same]
      exact .inr light
    · rw [if_neg same]
      exact still.phase other

-- What a step does to the tables.
inductive Steps (home : String → String) (s : Cluster) : Action → Cluster → Prop where
  | still (action t) (still : Still s action t) : Steps home s action t
  | restarts (clock) : Steps home s (.restarts clock)
      {s with coordinator := Coordinator.start clock,incarnation := s.incarnation + 1,pass := none,asks := []}
  | passes (answered pass fetched) (passing : s.pass = some pass)
      (done : fetchVersions s.coordinator answered pass.call = some fetched) : Steps home s (.finishPass answered) {s with
        coordinator := {pass.gateways.foldl (computeGateway s.now pass.listing) fetched with computed := true}
        pass := none
        issued := raised s.issued (pass.gateways.foldl (computeGateway s.now pass.listing) fetched)}
  | arrives (id since routing) (polling : (s.members id).phase = .polling since routing) :
      Steps home s (.pollArrives id) (arrivePoll home s id since routing)
  | hands (id) : Steps home s (.answers id)
      ({s with handed := s.handed ++ [handedNow home s id]}.enter id (.given (getRouting s.coordinator (home id))))
  | applies (id unresolved snapshot) (carried : (s.members id).phase = .given snapshot) :
      Steps home s (.applies id unresolved) {s with
        members := update s.members id ((s.members id).apply unresolved snapshot)
        applied := s.applied ++ [(id,snapshot)]}

theorem Steps.framed {action : Action} (deploy : t.deploy.given = s.deploy.given) (coordinator : Keeps s.coordinator t.coordinator)
    (incarnation : t.incarnation = s.incarnation) (handed : t.handed = s.handed) (members : t.members = s.members) :
    Steps home s action t := .still action t (Still.frame deploy coordinator incarnation handed members)

theorem Steps.entered {action : Action} {id : String} {phase : Phase} (light : Light (s.members id).replica phase) :
    Steps home s action (s.enter id phase) :=
  .still action _ ((Still.frame rfl (Keeps.refl _) rfl rfl rfl).enters light)

theorem next_steps {action : Action} (taken : next home s action = some t) : Steps home s action t := by
  have given : ∀ (gateway : String) (apps : Dict String String),
      ∀ entry ∈ (s.deploy.route gateway apps).given, entry ∈ s.deploy.given ∨ entry.1 = gateway ∧ entry.2.apps = apps := by
    intro gateway apps entry member
    refine (List.mem_append.mp member).imp_right ?_
    intro new
    rw [List.mem_singleton.mp new]
    exact ⟨rfl,rfl⟩
  cases next_goes taken with
  | route gateway apps => exact .still _ _ ⟨given gateway apps,Keeps.refl _,rfl,rfl,fun _ => rfl,fun _ => .inl rfl⟩
  | loads gateway apps blank => exact .still _ _ ⟨given gateway apps,Keeps.refl _,rfl,rfl,fun _ => rfl,fun _ => .inl rfl⟩
  | restarts clock => exact .restarts clock
  | passes answered pass fetched passing done => exact .passes answered pass fetched passing done
  | polls id idle =>
      apply Steps.entered
      rfl
  | arrives id since routing polling => exact .arrives id since routing polling
  | enters action id phase bare =>
      apply Steps.entered
      cases phase with
      | polling | held | given => exact bare.elim
      | _ => trivial
  | asks id asking =>
      have watched : Still s (.askArrives id) {s with coordinator := s.coordinator.watch (home id)} :=
        Still.frame rfl ⟨rfl,rfl,rfl,rfl,rfl⟩ rfl rfl rfl
      exact .still _ _ (watched.enters trivial)
  | hands id waiting computed => exact .hands id
  | applies id unresolved snapshot carried => exact .applies id unresolved snapshot carried
  | fails id =>
      have left : ∀ strays, Still s (.fails id) {s with strays} := fun strays => Still.frame rfl (Keeps.refl _) rfl rfl rfl
      exact .still _ _ ((left _).enters trivial)
  | strays index id report stray =>
      refine Steps.framed rfl ?_ rfl rfl rfl
      cases report with
      | none => exact ⟨rfl,rfl,rfl,rfl,rfl⟩
      | some sent => exact record_keeps s.coordinator (home id) id sent.1 s.now (some sent.2)
  | waits gateway routing timeout => exact Steps.framed rfl ⟨rfl,rfl,rfl,rfl,rfl⟩ rfl rfl rfl
  | answers index ask held asked told =>
      exact Steps.framed rfl (switched_keeps s.coordinator s.now ask.gateway ask.routing) rfl rfl rfl
  | stays index ask asked => exact Steps.framed rfl (switched_keeps s.coordinator s.now ask.gateway ask.routing) rfl rfl rfl
  | _ => exact Steps.framed rfl (Keeps.refl _) rfl rfl rfl

-- Where a poll ends up when it reaches the coordinator.
theorem arrivePoll_cases (home : String → String) (s : Cluster) (id : String) (since : Int) (routing : Option Int) :
    ∃ c phase, Keeps s.coordinator c ∧ arrivePoll home s id since routing = {s with coordinator := c}.enter id phase ∧
      (s.coordinator.computed = false ∧ phase = .held s.incarnation true since (s.now + watchTimeout) ∨
        s.coordinator.computed = true ∧ s.coordinator.generationOf (home id) ≠ since ∧
          phase = .told (s.coordinator.generationOf (home id)) ∨
        s.coordinator.computed = true ∧ s.coordinator.generationOf (home id) = since ∧
          phase = .held s.incarnation false since (s.now + watchTimeout)) := by
  have keeps := record_keeps s.coordinator (home id) id since s.now routing
  refine ⟨record (s.coordinator.watch (home id)) (home id) id since s.now routing,?_⟩
  unfold arrivePoll
  dsimp only
  rw [keeps.computed,keeps.generationOf (home id)]
  by_cases computed : s.coordinator.computed = false
  · rw [if_pos computed]
    exact ⟨_,keeps,rfl,.inl ⟨computed,rfl⟩⟩
  · have ready : s.coordinator.computed = true := Bool.eq_true_of_not_eq_false computed
    rw [if_neg computed]
    by_cases apart : s.coordinator.generationOf (home id) ≠ since
    · rw [if_pos apart]
      exact ⟨_,keeps,rfl,.inr (.inl ⟨ready,apart,rfl⟩)⟩
    · rw [if_neg apart]
      exact ⟨_,keeps,rfl,.inr (.inr ⟨ready,not_not.mp apart,rfl⟩)⟩

-- A poll waits on the replica's own generation; a table on its way is between the
-- replica's and the published one.
def PhaseLevel (replica : Replica) (current : Snapshot) : Phase → Prop
  | .polling since _ => since = replica.gen
  | .held _ _ since _ => since = replica.gen
  | .given snapshot => Behind replica snapshot ∧ Older snapshot current
  | _ => True

theorem PhaseLevel.mono {replica : Replica} {current later : Snapshot} {phase : Phase}
    (level : PhaseLevel replica current phase) (older : Older current later) : PhaseLevel replica later phase := by
  cases phase with
  | given snapshot => exact ⟨level.1,level.2.trans older⟩
  | polling since routing => exact level
  | held incarnation first since deadline => exact level
  | _ => trivial

theorem Light.level {replica : Replica} {current : Snapshot} {phase : Phase} (light : Light replica phase) :
    PhaseLevel replica current phase := by
  cases phase with
  | polling since routing => exact light
  | held incarnation first since deadline => exact light.elim
  | given snapshot => exact light.elim
  | _ => trivial

structure MemberLevel (gateway : String) (handed : List Handed) (current : Snapshot) (m : Member) : Prop where
  tidy : Tidy m.replica
  labelled : Labelled gateway m.replica
  behind : Behind m.replica current
  phase : PhaseLevel m.replica current m.phase
  seen : m.replica.gen = 0 ∨ ∃ entry ∈ handed, entry.snapshot.generation = m.replica.gen

structure Level (home : String → String) (s : Cluster) : Prop where
  named : ∀ entry ∈ s.deploy.given, Named entry.1 entry.2.apps
  members : ∀ id, MemberLevel (home id) s.handed (getRouting s.coordinator (home id)) (s.members id)

theorem MemberLevel.stays {gateway : String} {handed more : List Handed} {current later : Snapshot} {m n : Member}
    (level : MemberLevel gateway handed current m) (older : Older current later) (grows : handed ⊆ more)
    (replica : n.replica = m.replica) (phase : PhaseLevel m.replica later n.phase) : MemberLevel gateway more later n where
  tidy := replica ▸ level.tidy
  labelled := replica ▸ level.labelled
  behind := replica ▸ level.behind.trans older
  phase := replica ▸ phase
  seen := by
    rw [replica]
    refine level.seen.imp_right ?_
    intro ⟨entry,member,same⟩
    exact ⟨entry,grows member,same⟩

theorem start_level (home : String → String) (seq : Int) {clock : Int} (begun : 0 < clock) : Level home (start seq clock) := by
  refine ⟨nofun,?_⟩
  intro id
  refine ⟨start_tidy,?_,.inl begun,trivial,.inl rfl⟩
  intro app model held
  obtain ⟨handles,found,_⟩ := held
  cases found

-- A table that was handed out names its apps after their models.
theorem Known.named {given : List (String × Version)} {handed : Handed} (known : Known given handed)
    (named : ∀ entry ∈ given, Named entry.1 entry.2.apps) {app model : String}
    (found : handed.snapshot.models.get? app = some model) : IsApp handed.gateway app model := by
  obtain ⟨_,⟨_,version,⟨there,listing,routing,computed,models,_⟩,_⟩ | ⟨_,blank⟩⟩ := known
  · rw [models] at found
    exact named _ there _ (computeRouting_target computed found)
  · rw [blank.1] at found
    cases found

theorem Level.restarts (level : Level home s) (traced : Traced home s) {clock : Int}
    (late : 0 < clock ∧ ∀ handed ∈ s.handed, handed.snapshot.generation < clock) : Level home
      {s with coordinator := Coordinator.start clock,incarnation := s.incarnation + 1,pass := none,asks := []} := by
  refine ⟨level.named,?_⟩
  intro id
  have before := level.members id
  refine ⟨before.tidy,before.labelled,.inl ?_,?_,before.seen⟩
  · change (s.members id).replica.gen < clock
    rcases before.seen with nothing | ⟨handed,member,same⟩
    · rw [nothing]
      exact late.1
    · rw [← same]
      exact late.2 handed member
  · have phase := before.phase
    dsimp only
    cases carried : (s.members id).phase with
    | given snapshot =>
        rw [carried] at phase
        obtain ⟨handed,member,_,same⟩ := traced.carried id snapshot carried
        exact ⟨phase.1,.inl (same ▸ late.2 handed member)⟩
    | polling since routing =>
        rw [carried] at phase
        exact phase
    | held incarnation first since deadline =>
        rw [carried] at phase
        exact phase
    | _ => trivial

theorem MemberLevel.applies {given : List (String × Version)} {handed : List Handed} {current : Snapshot} {m : Member}
    {entry : Handed} (level : MemberLevel entry.gateway handed current m) (unresolved : List String) (member : entry ∈ handed)
    (known : Known given entry) (named : ∀ entry ∈ given, Named entry.1 entry.2.apps) (carried : m.phase = .given entry.snapshot) :
    MemberLevel entry.gateway handed current (m.apply unresolved entry.snapshot) := by
  have phase := level.phase
  rw [carried] at phase
  obtain ⟨behind,labelled⟩ := Behind.applies unresolved level.tidy level.labelled (fun _ _ => known.named named) phase.1
  refine ⟨(applySnapshot_routes entry.snapshot unresolved level.tidy).1,labelled,behind.trans phase.2,trivial,?_⟩
  change (applySnapshot m.replica unresolved entry.snapshot).gen = 0 ∨ ∃ other ∈ handed, other.snapshot.generation =
    (applySnapshot m.replica unresolved entry.snapshot).gen
  -- the generation is the snapshot's, or the one before
  unfold applySnapshot
  dsimp only
  split
  · exact .inr ⟨entry,member,rfl⟩
  · rw [(applyRouting_rest _ unresolved entry.snapshot.models).2.1]
    exact level.seen

theorem Level.applies (level : Level home s) (traced : Traced home s) {id : String} {snapshot : Snapshot}
    (unresolved : List String) (carried : (s.members id).phase = .given snapshot) : Level home {s with
      members := update s.members id ((s.members id).apply unresolved snapshot)
      applied := s.applied ++ [(id,snapshot)]} := by
  refine ⟨level.named,?_⟩
  intro other
  change MemberLevel _ _ _ (update s.members id ((s.members id).apply unresolved snapshot) other)
  by_cases same : other = id
  · subst same
    rw [update_self]
    obtain ⟨entry,member,gateway,rfl⟩ := traced.carried other snapshot carried
    have before := level.members other
    rw [← gateway] at before ⊢
    exact before.applies unresolved member (traced.handed entry member) level.named carried
  · rw [update_of_ne same]
    exact level.members other

theorem next_level {action : Action} (level : Level home s) (traced : Traced home s) (promised : Promised s action)
    (taken : next home s action = some t) : Level home t := by
  cases next_steps taken with
  | still action t still =>
      refine ⟨?_,?_⟩
      · intro entry member
        rcases still.given entry member with old | new
        · exact level.named entry old
        · cases action with
          | route gateway targets => exact new.1 ▸ new.2 ▸ promised
          | load gateway targets => exact new.1 ▸ new.2 ▸ promised
          | _ => exact new.elim
      · intro id
        have before := level.members id
        have same := still.coordinator.getRouting (home id)
        apply before.stays (same ▸ Older.refl _) (still.handed ▸ List.Subset.refl _) (still.replica id)
        rw [same]
        rcases still.phase id with kept | light
        · rw [kept]
          exact before.phase
        · exact light.level
  | restarts clock => exact level.restarts traced promised
  | passes answered pass fetched passing done =>
      refine ⟨level.named,?_⟩
      intro id
      have older := pass_older s.now pass.listing pass.gateways fetched (home id)
      rw [(fetchVersions_keeps done).getRouting (home id)] at older
      exact (level.members id).stays older (List.Subset.refl _) rfl ((level.members id).phase.mono older)
  | arrives id since routing polling =>
      obtain ⟨c,phase,keeps,after,ends⟩ := arrivePoll_cases home s id since routing
      have waits := (level.members id).phase
      rw [polling] at waits
      rw [after]
      refine ⟨level.named,?_⟩
      intro other
      have same : getRouting c (home other) = getRouting s.coordinator (home other) := keeps.getRouting (home other)
      change MemberLevel _ _ (getRouting c (home other)) _
      rw [same]
      apply (level.members other).stays (Older.refl _) (List.Subset.refl _) (enter_replica _ id other phase)
      rw [enter_phases]
      split
      · rename_i here
        subst here
        rcases ends with ⟨_,rfl⟩ | ⟨_,_,rfl⟩ | ⟨_,_,rfl⟩
        · exact waits
        · trivial
        · exact waits
      · exact (level.members other).phase
  | hands id =>
      refine ⟨level.named,?_⟩
      intro other
      apply (level.members other).stays (Older.refl _) (List.subset_append_left _ _) (enter_replica _ id other _)
      rw [enter_phases]
      split
      · rename_i here
        subst here
        exact ⟨(level.members other).behind,Older.refl _⟩
      · exact (level.members other).phase
  | applies id unresolved snapshot carried => exact level.applies traced unresolved carried

theorem runs_level {seq clock : Int} {actions : List Action} (begun : 0 < clock)
    (meets : Meets (next home) Promised (start seq clock) actions)
    (ran : execute (next home) (start seq clock) actions = some s) : (Valid home s ∧ Traced home s) ∧ Level home s := by
  have kept : ∀ s action t, (Valid home s ∧ Traced home s) ∧ Level home s → Promised s action → next home s action = some t →
      (Valid home t ∧ Traced home t) ∧ Level home t := by
    intro s action t ⟨⟨valid,traced⟩,level⟩ promised taken
    exact ⟨⟨next_valid valid taken,next_traced valid traced taken⟩,next_level level traced promised taken⟩
  have traced : Traced home (start seq clock) := ⟨nofun,nofun,nofun⟩
  exact meets_invariant kept ⟨⟨start_valid home seq clock,traced⟩,start_level home seq begun⟩ meets ran

end

end Modelship.Gateway
