import Modelship.Gateway.Coordinator

namespace Modelship.Gateway
open Foundation Function

-- Seqs, none below every one of them.
def Upto (one two : Option Int) : Prop := ∀ p, one = some p → ∃ q, two = some q ∧ p ≤ q

theorem Upto.refl (one : Option Int) : Upto one one := fun p held => ⟨p,held,le_refl p⟩

theorem Upto.nothing (two : Option Int) : Upto none two := fun p held => by cases held

theorem Upto.trans {one two three : Option Int} (first : Upto one two) (second : Upto two three) : Upto one three := by
  intro p held
  obtain ⟨q,there,le⟩ := first p held
  obtain ⟨r,last,more⟩ := second q there
  exact ⟨r,last,le.trans more⟩

theorem upto_some {p q : Int} : Upto (some p) (some q) ↔ p ≤ q := by
  constructor
  · intro upto
    obtain ⟨r,same,le⟩ := upto p rfl
    cases same
    exact le
  · intro le r held
    cases held
    exact ⟨q,rfl,le⟩

section
variable {given more : List (String × Version)}

-- A table computed for the gateway from a version it has been given.
def Computed (given : List (String × Version)) (gateway : String) (version : Version) (models : Dict String String)
    (expected : List String) : Prop :=
  (gateway,version) ∈ given ∧ ∃ listing routing, computeRouting gateway version.apps listing = some routing ∧
    models = routing.models ∧ expected = routing.expected

def Blank (snapshot : Snapshot) : Prop :=
  snapshot.models = Dict.empty ∧ snapshot.expected = [] ∧ snapshot.routing = none

-- A table on its way is at least as new as all its replica has touched, and no newer
-- than the last one published.
def Fits (given : List (String × Version)) (issued : Option Int) (gateway : String) (touched : Option Int)
    (snapshot : Snapshot) : Prop :=
  Blank snapshot ∨ ∃ version, Computed given gateway version snapshot.models snapshot.expected ∧
    snapshot.routing = some version.seq ∧ Upto touched (some version.seq) ∧ Upto (some version.seq) issued

def PhaseValid (given : List (String × Version)) (issued : Option Int) (gateway : String) (touched : Option Int) :
    Phase → Prop
  | .polling _ routing => Upto routing touched
  | .given snapshot => Fits given issued gateway touched snapshot
  | _ => True

-- Even a table applied in part leaves no route outside the version it came from.
structure MemberValid (given : List (String × Version)) (issued : Option Int) (gateway : String) (m : Member) : Prop where
  once : m.replica.routed.Nodup
  within : m.replica.routed = [] ∨ ∃ version, (gateway,version) ∈ given ∧ m.touched = some version.seq ∧
    ∀ app ∈ m.replica.routed, app ∈ apps version.apps
  behind : Upto m.touched issued
  reported : Upto m.replica.routingSeq m.touched
  phase : PhaseValid given issued gateway m.touched m.phase

structure DeployValid (d : Deploy) : Prop where
  ordered : d.given.Pairwise (·.2.seq < ·.2.seq)
  below : ∀ entry ∈ d.given, entry.2.seq ≤ d.seq
  current : ∀ gateway version, d.routing gateway = some version →
    (gateway,version) ∈ d.given ∧ ∀ other, (gateway,other) ∈ d.given → other.seq ≤ version.seq

def Unpublished (c : Coordinator) (gateway : String) : Prop := c.routing gateway = none ∧ c.seqs gateway = none

structure CoordinatorValid (given : List (String × Version)) (issued : String → Option Int) (c : Coordinator) : Prop where
  versions : ∀ gateway version, c.versions gateway = some version →
    (gateway,version) ∈ given ∧ Upto (issued gateway) (some version.seq)
  published : ∀ gateway, Unpublished c gateway ∨ ∃ version routing,
    Computed given gateway version routing.models routing.expected ∧ c.routing gateway = some routing ∧
      c.seqs gateway = some version.seq ∧ issued gateway = some version.seq

structure Valid (home : String → String) (s : Cluster) : Prop where
  deploy : DeployValid s.deploy
  issued : ∀ gateway seq, s.issued gateway = some seq → ∃ version, (gateway,version) ∈ s.deploy.given ∧ version.seq = seq
  coordinator : CoordinatorValid s.deploy.given s.issued s.coordinator
  fetched : ∀ pass, s.pass = some pass → ∀ call, pass.call = some call → ∀ entry ∈ call.got,
    entry ∈ s.deploy.given ∧ Upto (s.issued entry.1) (some entry.2.seq)
  members : ∀ id, MemberValid s.deploy.given (s.issued (home id)) (home id) (s.members id)
  reports : ∀ gateway id report, s.coordinator.reports gateway id = some report →
    home id = gateway ∧ Upto (some report.routing) (s.members id).touched
  strays : ∀ id since routing, (id,some (since,routing)) ∈ s.strays → Upto (some routing) (s.members id).touched

theorem start_valid (home : String → String) (seq clock : Int) : Valid home (start seq clock) where
  deploy := ⟨List.Pairwise.nil,fun _ member => absurd member List.not_mem_nil,fun _ _ routed => by cases routed⟩
  issued := fun _ _ held => by cases held
  coordinator := ⟨fun _ _ held => absurd held nofun,fun _ => .inl ⟨rfl,rfl⟩⟩
  fetched := fun _ passing => by cases passing
  members := fun _ => ⟨List.nodup_nil,.inl rfl,Upto.nothing _,Upto.nothing _,trivial⟩
  reports := fun _ _ _ held => by cases held
  strays := fun _ _ _ member => by cases member

theorem Computed.mono {gateway : String} {version : Version} {models : Dict String String} {expected : List String}
    (computed : Computed given gateway version models expected) (grows : given ⊆ more) :
    Computed more gateway version models expected := ⟨grows computed.1,computed.2⟩

theorem Fits.mono {issued later touched : Option Int} {gateway : String} {snapshot : Snapshot}
    (fits : Fits given issued gateway touched snapshot) (grows : given ⊆ more) (rises : Upto issued later) :
    Fits more later gateway touched snapshot := by
  rcases fits with blank | ⟨version,computed,routing,above,below⟩
  · exact .inl blank
  · exact .inr ⟨version,computed.mono grows,routing,above,below.trans rises⟩

theorem MemberValid.mono {issued later : Option Int} {gateway : String} {m : Member}
    (valid : MemberValid given issued gateway m) (grows : given ⊆ more) (rises : Upto issued later) :
    MemberValid more later gateway m where
  once := valid.once
  within := by
    rcases valid.within with nothing | ⟨version,known,touched,routed⟩
    · exact .inl nothing
    · exact .inr ⟨version,grows known,touched,routed⟩
  behind := valid.behind.trans rises
  reported := valid.reported
  phase := by
    have phase := valid.phase
    cases at_ : m.phase with
    | given snapshot =>
        rw [at_] at phase
        exact Fits.mono phase grows rises
    | polling since routing =>
        rw [at_] at phase
        exact phase
    | _ => trivial

theorem CoordinatorValid.mono {issued : String → Option Int} {c : Coordinator} (valid : CoordinatorValid given issued c)
    (grows : given ⊆ more) : CoordinatorValid more issued c where
  versions := fun gateway version held => ⟨grows (valid.versions gateway version held).1,(valid.versions gateway version held).2⟩
  published := by
    intro gateway
    rcases valid.published gateway with nothing | ⟨version,routing,computed,rest⟩
    · exact .inl nothing
    · exact .inr ⟨version,routing,computed.mono grows,rest⟩

theorem CoordinatorValid.frame {issued : String → Option Int} {c d : Coordinator} (valid : CoordinatorValid given issued c)
    (routing : d.routing = c.routing) (versions : d.versions = c.versions) (seqs : d.seqs = c.seqs) :
    CoordinatorValid given issued d := by
  refine ⟨?_,?_⟩
  · rw [versions]
    exact valid.versions
  · unfold Unpublished
    rw [routing,seqs]
    exact valid.published

-- The deploy coordinator gives a new version, newer than all before it.
theorem route_valid {d : Deploy} (valid : DeployValid d) (gateway : String) (targets : Dict String String) :
    DeployValid (d.route gateway targets) where
  ordered := by
    refine List.pairwise_append.mpr ⟨valid.ordered,List.pairwise_singleton _ _,?_⟩
    intro entry member last new
    rw [List.mem_singleton.mp new]
    have := valid.below entry member
    dsimp only
    omega
  below := by
    intro entry member
    rcases List.mem_append.mp member with old | new
    · have := valid.below entry old
      dsimp only [Deploy.route]
      omega
    · rw [List.mem_singleton.mp new]
      exact le_refl _
  current := by
    intro other version routed
    dsimp only [Deploy.route] at routed ⊢
    by_cases same : other = gateway
    · subst same
      rw [update_self] at routed
      cases routed
      refine ⟨List.mem_append_right _ List.mem_cons_self,?_⟩
      intro older member
      rcases List.mem_append.mp member with old | new
      · have := valid.below _ old
        dsimp only at this ⊢
        omega
      · cases List.mem_singleton.mp new
        exact le_refl _
    · rw [update_of_ne same] at routed
      obtain ⟨known,newest⟩ := valid.current other version routed
      refine ⟨List.mem_append_left _ known,?_⟩
      intro older member
      rcases List.mem_append.mp member with old | new
      · exact newest older old
      · cases List.mem_singleton.mp new
        exact absurd rfl same

end

section
variable {home : String → String} {s t : Cluster}

theorem Valid.redeploys {d : Deploy} (valid : Valid home s) (sound : DeployValid d) (grows : s.deploy.given ⊆ d.given) :
    Valid home {s with deploy := d} where
  deploy := sound
  issued := by
    intro gateway seq held
    obtain ⟨version,known,same⟩ := valid.issued gateway seq held
    exact ⟨version,grows known,same⟩
  coordinator := valid.coordinator.mono grows
  fetched := by
    intro pass passing call calling entry member
    obtain ⟨known,newer⟩ := valid.fetched pass passing call calling entry member
    exact ⟨grows known,newer⟩
  members := fun id => (valid.members id).mono grows (Upto.refl _)
  reports := valid.reports
  strays := valid.strays

-- The gateway coordinator takes in a call: its tables stay, its reports stay sound.
theorem Valid.attends {c : Coordinator} (valid : Valid home s) (routing : c.routing = s.coordinator.routing)
    (versions : c.versions = s.coordinator.versions) (seqs : c.seqs = s.coordinator.seqs)
    (reports : ∀ gateway id report, c.reports gateway id = some report →
      home id = gateway ∧ Upto (some report.routing) (s.members id).touched) :
    Valid home {s with coordinator := c} :=
  ⟨valid.deploy,valid.issued,valid.coordinator.frame routing versions seqs,valid.fetched,valid.members,reports,valid.strays⟩

theorem enter_touched (s : Cluster) (id other : String) (phase : Phase) :
    ((s.enter id phase).members other).touched = (s.members other).touched := by
  unfold Cluster.enter
  dsimp only
  by_cases same : other = id
  · rw [same,update_self]
  · rw [update_of_ne same]

-- A replica moves to its next call or message.
theorem Valid.enters {id : String} {phase : Phase} (valid : Valid home s)
    (sound : PhaseValid s.deploy.given (s.issued (home id)) (home id) (s.members id).touched phase) :
    Valid home (s.enter id phase) where
  deploy := valid.deploy
  issued := valid.issued
  coordinator := valid.coordinator
  fetched := valid.fetched
  members := by
    intro other
    change MemberValid _ _ _ (update s.members id _ other)
    by_cases same : other = id
    · rw [same,update_self]
      have before := valid.members id
      exact ⟨before.once,before.within,before.behind,before.reported,sound⟩
    · rw [update_of_ne same]
      exact valid.members other
  reports := by
    intro gateway other report held
    rw [enter_touched]
    exact valid.reports gateway other report held
  strays := by
    intro other since routing member
    rw [enter_touched]
    exact valid.strays other since routing member

theorem Valid.watches (valid : Valid home s) (gateway : String) :
    Valid home {s with coordinator := s.coordinator.watch gateway} :=
  valid.attends rfl rfl rfl valid.reports

-- A report is the seq of a snapshot its replica has applied in full.
theorem Valid.records {id : String} {routing : Option Int} (valid : Valid home s) (since : Int)
    (held : Upto routing (s.members id).touched) :
    Valid home {s with coordinator := record (s.coordinator.watch (home id)) (home id) id since s.now routing} := by
  cases routing with
  | none => exact valid.watches (home id)
  | some seq =>
      refine valid.attends rfl rfl rfl ?_
      intro gateway other report found
      dsimp only [record] at found
      by_cases there : gateway = home id
      · rw [there,update_self] at found
        by_cases same : other = id
        · rw [same,update_self] at found
          cases found
          rw [same]
          exact ⟨there.symm,held⟩
        · rw [update_of_ne same] at found
          exact there ▸ valid.reports (home id) other report found
      · rw [update_of_ne there] at found
        exact valid.reports gateway other report found

theorem fresh_reports {c : Coordinator} {now : Nat} {gateway other id : String} {report : Report}
    (held : (freshReports c now gateway).reports other id = some report) : c.reports other id = some report := by
  dsimp only [freshReports] at held
  by_cases same : other = gateway
  · rw [same,update_self] at held
    rw [same]
    exact (Option.filter_eq_some_iff.mp held).1
  · rwa [update_of_ne same] at held

theorem Valid.checks (valid : Valid home s) (now : Nat) (gateway : String) (routing : Int) :
    Valid home {s with coordinator := (switched s.coordinator now gateway routing).1} := by
  unfold switched
  split
  · exact valid
  · refine valid.attends rfl rfl rfl ?_
    intro other id report held
    exact valid.reports other id report (fresh_reports held)

-- The last seq published for each gateway, as a pass goes through them.
def raised (issued : String → Option Int) (c : Coordinator) (gateway : String) : Option Int :=
  (c.seqs gateway).or (issued gateway)

theorem publish_fields (c : Coordinator) (gateway : String) (routing : Routing) (seq : Int) :
    (publish c gateway routing seq).routing = update c.routing gateway (some routing) ∧
    (publish c gateway routing seq).seqs = update c.seqs gateway (some seq) ∧
    (publish c gateway routing seq).versions = c.versions ∧ (publish c gateway routing seq).reports = c.reports := by
  unfold publish
  dsimp only
  split <;> exact ⟨rfl,rfl,rfl,rfl⟩

theorem CoordinatorValid.publishes {given : List (String × Version)} {issued : String → Option Int} {c d : Coordinator}
    {gateway : String} {version : Version} {routing : Routing} (valid : CoordinatorValid given (raised issued c) c)
    (known : c.versions gateway = some version)
    (computed : Computed given gateway version routing.models routing.expected)
    (table : d.routing = update c.routing gateway (some routing))
    (seqs : d.seqs = update c.seqs gateway (some version.seq)) (versions : d.versions = c.versions) :
    CoordinatorValid given (raised issued d) d ∧ ∀ other, Upto (raised issued c other) (raised issued d other) := by
  have here : raised issued d gateway = some version.seq := by
    unfold raised
    rw [seqs,update_self,Option.some_or]
  have elsewhere : ∀ other, other ≠ gateway → raised issued d other = raised issued c other := by
    intro other apart
    unfold raised
    rw [seqs,update_of_ne apart]
  refine ⟨⟨?_,?_⟩,?_⟩
  · intro other found held
    rw [versions] at held
    by_cases same : other = gateway
    · subst same
      rw [known] at held
      cases held
      rw [here]
      exact ⟨computed.1,Upto.refl _⟩
    · rw [elsewhere other same]
      exact valid.versions other found held
  · intro other
    by_cases same : other = gateway
    · subst same
      refine .inr ⟨version,routing,computed,?_,?_,here⟩
      · rw [table,update_self]
      · rw [seqs,update_self]
    · unfold Unpublished
      rw [table,seqs,update_of_ne same,update_of_ne same,elsewhere other same]
      exact valid.published other
  · intro other
    by_cases same : other = gateway
    · rw [same,here]
      exact (valid.versions gateway version known).2
    · rw [elsewhere other same]
      exact Upto.refl _

theorem computeGateway_cases (now : Nat) (listing : Dict String ServeApp) (c : Coordinator) (gateway : String) :
    computeGateway now listing c gateway = c ∨
    ∃ version routing running, c.versions gateway = some version ∧
      computeRouting gateway version.apps (listing.mapValues statusOverview) = some routing ∧
      computeGateway now listing c gateway =
        freshReports (publish {c with replicas := update c.replicas gateway running} gateway routing version.seq) now gateway := by
  unfold computeGateway
  cases known : c.versions gateway with
  | none => exact .inl rfl
  | some version =>
      dsimp only
      cases computed : computeRouting gateway version.apps (listing.mapValues statusOverview) with
      | none => exact .inl rfl
      | some routing => exact .inr ⟨version,routing,_,rfl,computed,rfl⟩

theorem computeGateway_valid {given : List (String × Version)} {issued : String → Option Int} {c : Coordinator}
    (now : Nat) (listing : Dict String ServeApp) (gateway : String) (valid : CoordinatorValid given (raised issued c) c) :
    CoordinatorValid given (raised issued (computeGateway now listing c gateway)) (computeGateway now listing c gateway) ∧
    (∀ other, Upto (raised issued c other) (raised issued (computeGateway now listing c gateway) other)) ∧
    ∀ other id report, (computeGateway now listing c gateway).reports other id = some report →
      c.reports other id = some report := by
  rcases computeGateway_cases now listing c gateway with same | ⟨version,routing,running,known,computed,after⟩
  · rw [same]
    exact ⟨valid,fun other => Upto.refl _,fun _ _ _ held => held⟩
  · rw [after]
    obtain ⟨table,seqs,versions,reports⟩ :=
      publish_fields {c with replicas := update c.replicas gateway running} gateway routing version.seq
    generalize publish {c with replicas := update c.replicas gateway running} gateway routing version.seq = published
      at table seqs versions reports ⊢
    have known_ : Computed given gateway version routing.models routing.expected :=
      ⟨(valid.versions gateway version known).1,_,routing,computed,rfl,rfl⟩
    obtain ⟨sound,rises⟩ := valid.publishes (d := freshReports published now gateway) known known_ table seqs versions
    refine ⟨sound,rises,?_⟩
    intro other id report held
    have before := fresh_reports held
    rw [reports] at before
    exact before

-- A pass publishes each gateway's table in turn.
theorem pass_valid {given : List (String × Version)} {issued : String → Option Int} {c : Coordinator}
    (now : Nat) (listing : Dict String ServeApp) (gateways : List String) (valid : CoordinatorValid given (raised issued c) c) :
    CoordinatorValid given (raised issued (gateways.foldl (computeGateway now listing) c))
      (gateways.foldl (computeGateway now listing) c) ∧
    (∀ other, Upto (raised issued c other) (raised issued (gateways.foldl (computeGateway now listing) c) other)) ∧
    ∀ other id report, (gateways.foldl (computeGateway now listing) c).reports other id = some report →
      c.reports other id = some report := by
  induction gateways generalizing c with
  | nil => exact ⟨valid,fun other => Upto.refl _,fun _ _ _ held => held⟩
  | cons gateway rest ih =>
      obtain ⟨sound,rises,reports⟩ := computeGateway_valid now listing gateway valid
      obtain ⟨last,more,fewer⟩ := ih sound
      refine ⟨last,?_,?_⟩
      · intro other
        exact (rises other).trans (more other)
      · intro other id report held
        exact reports other id report (fewer other id report held)

theorem fetched_versions {got : List (String × Version)} {versions : String → Option Version} {gateway : String}
    {version : Version}
    (found : got.foldl (fun (versions : String → Option Version) entry => update versions entry.1 (some entry.2)) versions
      gateway = some version) :
    (gateway,version) ∈ got ∨ versions gateway = some version := by
  induction got generalizing versions with
  | nil => exact .inr found
  | cons entry rest ih =>
      rcases ih found with later | here
      · exact .inl (List.mem_cons_of_mem _ later)
      · dsimp only at here
        by_cases same : gateway = entry.1
        · rw [same,update_self] at here
          cases here
          exact .inl (same ▸ List.mem_cons_self)
        · rw [update_of_ne same] at here
          exact .inr here

theorem fetchVersions_valid {answered : Bool} {call : Option Call} {c : Coordinator} (valid : Valid home s)
    (fetched : ∀ calling, call = some calling → ∀ entry ∈ calling.got,
      entry ∈ s.deploy.given ∧ Upto (s.issued entry.1) (some entry.2.seq))
    (done : fetchVersions s.coordinator answered call = some c) :
    CoordinatorValid s.deploy.given s.issued c ∧ c.seqs = s.coordinator.seqs ∧ c.reports = s.coordinator.reports := by
  unfold fetchVersions at done
  split at done
  · rename_i got
    split at done
    · cases done
      refine ⟨⟨?_,valid.coordinator.published⟩,rfl,rfl⟩
      intro gateway version held
      rcases fetched_versions held with new | old
      · exact fetched _ rfl _ new
      · exact valid.coordinator.versions gateway version old
    · cases done
      exact ⟨valid.coordinator,rfl,rfl⟩
  · split at done
    · cases done
    · cases done
      exact ⟨valid.coordinator,rfl,rfl⟩

theorem Valid.raised_issued {c : Coordinator} (valid : Valid home s) (seqs : c.seqs = s.coordinator.seqs) :
    raised s.issued c = s.issued := by
  funext gateway
  unfold raised
  rw [seqs]
  rcases valid.coordinator.published gateway with ⟨_,nothing⟩ | ⟨version,_,_,_,seq,issued⟩
  · rw [nothing,Option.none_or]
  · rw [seq,issued,Option.some_or]

theorem Valid.passes {answered : Bool} {pass : Pass} {fetched : Coordinator} (valid : Valid home s)
    (passing : s.pass = some pass) (done : fetchVersions s.coordinator answered pass.call = some fetched) :
    Valid home {s with
      coordinator := {pass.gateways.foldl (computeGateway s.now pass.listing) fetched with computed := true}
      pass := none
      issued := raised s.issued (pass.gateways.foldl (computeGateway s.now pass.listing) fetched)} := by
  obtain ⟨sound,seqs,reports⟩ := fetchVersions_valid valid (valid.fetched pass passing) done
  have same := valid.raised_issued seqs
  obtain ⟨after,rises,fewer⟩ := pass_valid s.now pass.listing pass.gateways (same.symm ▸ sound)
  rw [same] at rises
  generalize pass.gateways.foldl (computeGateway s.now pass.listing) fetched = c at after rises fewer ⊢
  refine ⟨valid.deploy,?_,after.frame rfl rfl rfl,nofun,?_,?_,valid.strays⟩
  · intro gateway seq held
    rcases after.published gateway with ⟨_,nothing⟩ | ⟨version,_,computed,_,_,issued⟩
    · have before : s.issued gateway = some seq := by
        dsimp only [raised] at held
        rwa [nothing,Option.none_or] at held
      exact valid.issued gateway seq before
    · have equal : some version.seq = some seq := issued.symm.trans held
      exact ⟨version,computed.1,Option.some.inj equal⟩
  · intro id
    exact (valid.members id).mono (List.Subset.refl _) (rises (home id))
  · intro gateway id report held
    have before := fewer gateway id report held
    rw [reports] at before
    exact valid.reports gateway id report before

theorem applySnapshot_parts (replica : Replica) (unresolved : List String) (snapshot : Snapshot)
    (once : replica.routed.Nodup) :
    (applySnapshot replica unresolved snapshot).routed.Nodup ∧
    (∀ app ∈ (applySnapshot replica unresolved snapshot).routed, app ∈ snapshot.models.entries.map Prod.fst) ∧
    ((applySnapshot replica unresolved snapshot).routingSeq = snapshot.routing ∨
      (applySnapshot replica unresolved snapshot).routingSeq = replica.routingSeq) := by
  have kept : (applyRouting {replica with expected := snapshot.expected} unresolved snapshot.models).1.routingSeq =
      replica.routingSeq := (applyRouting_rest _ unresolved snapshot.models).2.2
  obtain ⟨left,routed⟩ :=
    applyRouting_routed {replica with expected := snapshot.expected} unresolved snapshot.models once
  unfold applySnapshot
  generalize applyRouting {replica with expected := snapshot.expected} unresolved snapshot.models = applied
    at kept left routed ⊢
  dsimp only
  split
  · exact ⟨left,routed,.inl rfl⟩
  · exact ⟨left,routed,.inr kept⟩

-- A replica applies a table, in full or in part; what it has touched does not go back.
theorem MemberValid.applies {given : List (String × Version)} {issued : Option Int} {gateway : String} {m : Member}
    {snapshot : Snapshot} (unresolved : List String) (valid : MemberValid given issued gateway m)
    (fits : Fits given issued gateway m.touched snapshot) :
    MemberValid given issued gateway (m.apply unresolved snapshot) ∧
      Upto m.touched (m.apply unresolved snapshot).touched := by
  obtain ⟨left,routed,seq⟩ := applySnapshot_parts m.replica unresolved snapshot valid.once
  have touched : (m.apply unresolved snapshot).touched = snapshot.routing.or m.touched := rfl
  rcases fits with ⟨empty,_,blank⟩ | ⟨version,computed,routing,above,below⟩
  · rw [blank,Option.none_or] at touched
    refine ⟨⟨left,.inl (List.eq_nil_iff_forall_not_mem.mpr ?_),?_,?_,trivial⟩,?_⟩
    · intro app member
      have nothing := routed app member
      rw [empty] at nothing
      cases nothing
    · exact touched ▸ valid.behind
    · rcases seq with applied | kept
      · rw [blank] at applied
        exact applied ▸ Upto.nothing _
      · rw [touched]
        exact kept ▸ valid.reported
    · rw [touched]
      exact Upto.refl _
  · rw [routing,Option.some_or] at touched
    refine ⟨⟨left,.inr ⟨version,computed.1,touched,?_⟩,?_,?_,trivial⟩,?_⟩
    · intro app member
      obtain ⟨_,listing,table,found,models,_⟩ := computed
      exact computeRouting_apps found (models ▸ routed app member)
    · exact touched ▸ below
    · rw [touched]
      rcases seq with applied | kept
      · rw [routing] at applied
        exact applied ▸ Upto.refl _
      · exact kept ▸ valid.reported.trans above
    · exact touched ▸ above

theorem Valid.applies {id : String} {snapshot : Snapshot} (unresolved : List String) (valid : Valid home s)
    (carried : (s.members id).phase = .given snapshot) :
    Valid home {s with members := update s.members id ((s.members id).apply unresolved snapshot)} := by
  have fits : Fits s.deploy.given (s.issued (home id)) (home id) (s.members id).touched snapshot := by
    have phase := (valid.members id).phase
    rwa [carried] at phase
  obtain ⟨after,rises⟩ := (valid.members id).applies unresolved fits
  have touched : ∀ other, Upto (s.members other).touched
      (update s.members id ((s.members id).apply unresolved snapshot) other).touched := by
    intro other
    by_cases same : other = id
    · rw [same,update_self]
      exact rises
    · rw [update_of_ne same]
      exact Upto.refl _
  refine ⟨valid.deploy,valid.issued,valid.coordinator,valid.fetched,?_,?_,?_⟩
  · intro other
    dsimp only
    by_cases same : other = id
    · rw [same,update_self]
      exact after
    · rw [update_of_ne same]
      exact valid.members other
  · intro gateway other report held
    obtain ⟨there,upto⟩ := valid.reports gateway other report held
    exact ⟨there,upto.trans (touched other)⟩
  · intro other since routing member
    exact (valid.strays other since routing member).trans (touched other)

-- The table handed out is the last one published.
theorem Valid.hands (valid : Valid home s) (id : String) :
    Fits s.deploy.given (s.issued (home id)) (home id) (s.members id).touched (getRouting s.coordinator (home id)) := by
  rcases valid.coordinator.published (home id) with ⟨table,seq⟩ | ⟨version,routing,computed,table,seq,issued⟩
  · refine .inl ⟨?_,?_,seq⟩
    · simp [getRouting,table]
    · simp [getRouting,table]
  · refine .inr ⟨version,?_,seq,?_,?_⟩
    · simpa [getRouting,table] using computed
    · exact issued ▸ (valid.members id).behind
    · rw [issued]
      exact Upto.refl _

theorem Valid.fails (valid : Valid home s) (id : String) :
    Valid home ({s with strays := s.strays ++ ((leave (s.members id).phase).toList.map (id,·))}.enter id .idle) := by
  refine Valid.enters (s := {s with strays := _}) ⟨valid.deploy,valid.issued,valid.coordinator,valid.fetched,valid.members,
    valid.reports,?_⟩ trivial
  intro other since routing member
  rcases List.mem_append.mp member with old | new
  · exact valid.strays other since routing old
  · have phase := (valid.members id).phase
    cases at_ : (s.members id).phase with
    | polling began reported =>
        rw [at_] at new phase
        cases reported with
        | none => simp [leave] at new
        | some seq =>
            simp only [leave,Option.toList_some,List.map_cons,List.map_nil,Option.map_some,List.mem_singleton,
              Prod.mk.injEq,Option.some.injEq] at new
            obtain ⟨rfl,_,rfl⟩ := new
            exact phase
    | _ => simp [at_,leave] at new

theorem Valid.strayArrives {id : String} {report : Option (Int × Int)} {index : Nat} (valid : Valid home s)
    (stray : s.strays[index]? = some (id,report)) :
    Valid home {s with coordinator := arriveStray home s id report,strays := s.strays.eraseIdx index} := by
  have fewer : ∀ other since routing, (other,some (since,routing)) ∈ s.strays.eraseIdx index →
      Upto (some routing) (s.members other).touched := by
    intro other since routing member
    exact valid.strays other since routing (List.mem_of_mem_eraseIdx member)
  cases report with
  | none =>
      have watched := valid.watches (home id)
      exact ⟨watched.deploy,watched.issued,watched.coordinator,watched.fetched,watched.members,watched.reports,fewer⟩
  | some sent =>
      obtain ⟨since,routing⟩ := sent
      have recorded := valid.records since (valid.strays id since routing (List.mem_of_getElem? stray))
      exact ⟨recorded.deploy,recorded.issued,recorded.coordinator,recorded.fetched,recorded.members,recorded.reports,fewer⟩

theorem Valid.arrives {id : String} {since : Int} {routing : Option Int} (valid : Valid home s)
    (polling : (s.members id).phase = .polling since routing) : Valid home (arrivePoll home s id since routing) := by
  have reported : Upto routing (s.members id).touched := by
    have phase := (valid.members id).phase
    rwa [polling] at phase
  have recorded := valid.records since reported
  unfold arrivePoll
  dsimp only
  split
  · exact recorded.enters trivial
  · split
    · exact recorded.enters trivial
    · exact recorded.enters trivial

theorem Valid.looks {listing : Dict String ServeApp} {gateways left : List String} {gateway : String}
    {got : List (String × Version)} {version : Version} (valid : Valid home s)
    (passing : s.pass = some ⟨listing,gateways,some ⟨gateway :: left,got⟩⟩) (routed : s.deploy.routing gateway = some version) :
    Valid home {s with pass := some ⟨listing,gateways,some ⟨left,got ++ [(gateway,version)]⟩⟩} := by
  refine ⟨valid.deploy,valid.issued,valid.coordinator,?_,valid.members,valid.reports,valid.strays⟩
  intro pass same call calling entry member
  cases same
  cases calling
  rcases List.mem_append.mp member with old | new
  · exact valid.fetched _ passing _ rfl entry old
  · rw [List.mem_singleton.mp new]
    obtain ⟨known,newest⟩ := valid.deploy.current gateway version routed
    refine ⟨known,?_⟩
    -- nothing newer than the current version has been published
    intro seq issued
    obtain ⟨published,given_,same⟩ := valid.issued gateway seq issued
    exact ⟨version.seq,rfl,same ▸ newest published given_⟩

theorem Valid.fresh (valid : Valid home s) {clock : Int} (late : s.deploy.seq < clock) : Valid home {s with
    deploy := {s.deploy with routing := fun _ => none,seq := clock}
    pass := s.pass.map fun pass => {pass with call := none}} := by
  have sound : DeployValid {s.deploy with routing := fun _ => none,seq := clock} := by
    refine ⟨valid.deploy.ordered,?_,nofun⟩
    intro entry member
    have := valid.deploy.below entry member
    dsimp only
    omega
  have restarted := valid.redeploys sound (List.Subset.refl _)
  refine ⟨restarted.deploy,restarted.issued,restarted.coordinator,?_,restarted.members,restarted.reports,
    restarted.strays⟩
  intro pass passing call calling
  obtain ⟨earlier,_,rfl⟩ := Option.map_eq_some_iff.mp passing
  cases calling

theorem next_valid {action : Action} (valid : Valid home s) (taken : next home s action = some t) : Valid home t := by
  cases next_goes taken with
  | tick elapsed =>
      exact ⟨valid.deploy,valid.issued,valid.coordinator,valid.fetched,valid.members,valid.reports,valid.strays⟩
  | route gateway apps => exact valid.redeploys (route_valid valid.deploy gateway apps) (List.subset_append_left _ _)
  | loads gateway apps blank => exact valid.redeploys (route_valid valid.deploy gateway apps) (List.subset_append_left _ _)
  | counts gateway apps =>
      refine valid.redeploys ⟨valid.deploy.ordered,?_,valid.deploy.current⟩ (List.Subset.refl _)
      intro entry member
      have := valid.deploy.below entry member
      dsimp only
      omega
  | deployRestarts clock late => exact valid.fresh late
  | restarts clock =>
      exact ⟨valid.deploy,valid.issued,⟨nofun,fun _ => .inl ⟨rfl,rfl⟩⟩,nofun,valid.members,nofun,valid.strays⟩
  | reads listing idle =>
      refine ⟨valid.deploy,valid.issued,valid.coordinator,?_,valid.members,valid.reports,valid.strays⟩
      intro pass same call calling entry member
      cases same
      cases calling
      cases member
  | looks listing gateways gateway left got version passing routed => exact valid.looks passing routed
  | passes answered pass fetched passing done => exact valid.passes passing done
  | polls id idle => exact valid.enters (valid.members id).reported
  | arrives id since routing polling => exact valid.arrives polling
  | enters action id phase bare =>
      apply valid.enters
      cases phase with
      | polling | held | waiting | given => exact bare.elim
      | _ => trivial
  | asks id asking => exact (valid.watches (home id)).enters trivial
  | hands id waiting computed =>
      exact Valid.enters (s := {s with handed := _}) ⟨valid.deploy,valid.issued,valid.coordinator,valid.fetched,
        valid.members,valid.reports,valid.strays⟩ (valid.hands id)
  | applies id unresolved snapshot carried =>
      have applied := valid.applies unresolved carried
      exact ⟨applied.deploy,applied.issued,applied.coordinator,applied.fetched,applied.members,applied.reports,
        applied.strays⟩
  | fails id => exact valid.fails id
  | strays index id report stray => exact valid.strayArrives stray
  | waits gateway routing timeout =>
      have watched := valid.watches gateway
      exact ⟨watched.deploy,watched.issued,watched.coordinator,watched.fetched,watched.members,watched.reports,
        watched.strays⟩
  | answers index ask held asked told =>
      have checked := valid.checks s.now ask.gateway ask.routing
      exact ⟨checked.deploy,checked.issued,checked.coordinator,checked.fetched,checked.members,checked.reports,
        checked.strays⟩
  | stays index ask asked => exact valid.checks s.now ask.gateway ask.routing

theorem runs_valid {seq clock : Int} {actions : List Action}
    (ran : execute (next home) (start seq clock) actions = some s) : Valid home s :=
  execute_invariant (fun _ _ _ valid taken => next_valid valid taken) (start_valid home seq clock) ran

theorem DeployValid.unique {d : Deploy} {one two : String × Version} (valid : DeployValid d) (first : one ∈ d.given)
    (second : two ∈ d.given) (same : one.2.seq = two.2.seq) : one = two := by
  have distinct : (d.given.map (·.2.seq)).Nodup := by
    refine List.pairwise_map.mpr (valid.ordered.imp ?_)
    intro earlier later less
    exact ne_of_lt less
  exact List.inj_on_of_nodup_map distinct first second same

-- The published seq bounds every replica's from above and its report from below.
theorem Valid.switched {now : Nat} {gateway : String} {seq : Int} (valid : Valid home s)
    (held : (switched s.coordinator now gateway seq).2 = true) :
    ∃ version, (gateway,version) ∈ s.deploy.given ∧ version.seq = seq ∧
      (∀ other, (gateway,other) ∈ s.deploy.given → other.seq = seq → other = version) ∧
      ∀ id ∈ s.coordinator.replicas gateway, ∀ app ∈ (s.members id).replica.routed, app ∈ apps version.apps := by
  unfold Gateway.switched at held
  split at held
  · cases held
  · rename_i current
    rw [not_or,not_not] at current
    obtain ⟨_,seqs⟩ := current
    rcases valid.coordinator.published gateway with ⟨_,nothing⟩ | ⟨version,_,computed,_,published,issued⟩
    · rw [nothing] at seqs
      cases seqs
    · have newest : version.seq = seq := Option.some.inj (published.symm.trans seqs)
      have only : ∀ other, (gateway,other) ∈ s.deploy.given → other.seq = seq → other = version := by
        intro other given_ same
        exact congrArg Prod.snd (valid.deploy.unique given_ computed.1 (same.trans newest.symm))
      refine ⟨version,computed.1,newest,only,?_⟩
      intro id running app routed
      obtain ⟨report,found,same⟩ := (Option.any_eq_true _ _).mp (List.all_eq_true.mp held id running)
      obtain ⟨here,upto⟩ := valid.reports gateway id report (fresh_reports found)
      rw [decide_eq_true_eq] at same
      have member := valid.members id
      rw [here] at member
      obtain ⟨touched,held_,above⟩ := upto report.routing rfl
      have bounded : touched ≤ version.seq := upto_some.mp (held_ ▸ issued ▸ member.behind)
      rcases member.within with nothing | ⟨other,given_,last,within⟩
      · rw [nothing] at routed
        cases routed
      · have level : touched = other.seq := Option.some.inj (held_.symm.trans last)
        have equal : other = version := only other given_ (by omega)
        exact equal ▸ within app routed

theorem switched_replicas (c : Coordinator) (now : Nat) (gateway : String) (seq : Int) :
    (switched c now gateway seq).1.replicas = c.replicas := by
  unfold switched
  split <;> rfl

theorem checks_parts {index : Nat} (checked : next home s (.checks index) = some t) :
    t.deploy = s.deploy ∧ t.members = s.members ∧ t.coordinator.replicas = s.coordinator.replicas ∧
    ∀ ask, t.answers = s.answers ++ [(ask,true)] → (switched s.coordinator s.now ask.gateway ask.routing).2 = true := by
  simp only [next] at checked
  split at checked
  case h_1 => cases checked
  case h_2 asked _ =>
    have replicas := switched_replicas s.coordinator s.now asked.gateway asked.routing
    split at checked
    case isTrue held =>
      cases checked
      refine ⟨rfl,rfl,replicas,?_⟩
      intro ask same
      have last := List.append_cancel_left same
      cases last
      exact held
    case isFalse =>
      split at checked
      · cases checked
        refine ⟨rfl,rfl,replicas,?_⟩
        intro ask same
        have last := List.append_cancel_left same
        cases last
      · cases checked
        refine ⟨rfl,rfl,replicas,?_⟩
        intro ask same
        have none_ : [] = [(ask,true)] := List.append_cancel_left ((List.append_nil s.answers).trans same)
        cases none_

-- Every replica the coordinator counts on routes to the version's apps alone, in the
-- state in which `wait_switched` answers that they do.
theorem confirmed_switch_is_real (home : String → String) {seq clock : Int} {actions : List Action} {s t : Cluster}
    {index : Nat} {ask : Ask} (ran : execute (next home) (start seq clock) actions = some s)
    (checked : next home s (.checks index) = some t) (confirmed : t.answers = s.answers ++ [(ask,true)]) :
    ∃ version, (ask.gateway,version) ∈ t.deploy.given ∧ version.seq = ask.routing ∧
      (∀ other, (ask.gateway,other) ∈ t.deploy.given → other.seq = ask.routing → other = version) ∧
      (∀ id ∈ t.coordinator.replicas ask.gateway, ∀ app ∈ (t.members id).replica.routed, app ∈ apps version.apps) ∧
      ∀ app, app ∉ apps version.apps → ∀ id ∈ t.coordinator.replicas ask.gateway, app ∉ (t.members id).replica.routed := by
  have valid := runs_valid ran
  obtain ⟨deploy,members,replicas,answered⟩ := checks_parts checked
  obtain ⟨version,given_,same,only,within⟩ := valid.switched (answered ask confirmed)
  rw [deploy,members,replicas]
  refine ⟨version,given_,same,only,within,?_⟩
  intro app outside id running routed
  exact outside (within id running app routed)

end

-- One replica, switched to one model.
def oneSwitch : List Action :=
  [.route "g" ⟨[("m","g.m-0123456789")],by decide⟩,.waitSwitched "g" 1 60000,
    .read ⟨[("g",⟨.running,[("gateway",[⟨"r",.running⟩])]⟩),("g.m-0123456789",⟨.running,[]⟩)],by decide⟩,.look,.finishPass true,
    .syncs "r",.askArrives "r",.answers "r",.applies "r" [],.polls "r",.pollArrives "r"]

theorem confirmed_switch_is_real_once :
    ∃ s t version, execute (next fun _ => "g") (start 0 0) oneSwitch = some s ∧
      next (fun _ => "g") s (.checks 0) = some t ∧ t.answers = s.answers ++ [(⟨"g",1,60000⟩,true)] ∧
      "r" ∈ t.coordinator.replicas "g" ∧ (t.members "r").replica.routed = ["g.m-0123456789"] ∧
      ("g",version) ∈ t.deploy.given ∧ version.seq = 1 ∧
      ∀ id ∈ t.coordinator.replicas "g", ∀ app ∈ (t.members id).replica.routed, app ∈ apps version.apps := by
  have run : ((execute (next fun _ => "g") (start 0 0) oneSwitch).bind fun s =>
      (next (fun _ => "g") s (.checks 0)).map fun t =>
        (s.answers,t.answers,t.coordinator.replicas "g",(t.members "r").replica.routed)) =
      some ([],[(⟨"g",1,60000⟩,true)],["r"],["g.m-0123456789"]) := by decide +kernel
  obtain ⟨s,ran,rest⟩ := Option.bind_eq_some_iff.mp run
  obtain ⟨t,checked,seen⟩ := Option.map_eq_some_iff.mp rest
  obtain ⟨before,after,running,routed⟩ : s.answers = [] ∧ t.answers = [(⟨"g",1,60000⟩,true)] ∧
      t.coordinator.replicas "g" = ["r"] ∧ (t.members "r").replica.routed = ["g.m-0123456789"] := by
    simpa using seen
  have confirmed : t.answers = s.answers ++ [(⟨"g",1,60000⟩,true)] := by
    rw [before,after]
    rfl
  obtain ⟨version,given_,same,_,within,_⟩ := confirmed_switch_is_real (fun _ => "g") ran checked confirmed
  refine ⟨s,t,version,ran,checked,confirmed,?_,routed,given_,same,within⟩
  rw [running]
  exact List.mem_singleton_self "r"

end Modelship.Gateway
