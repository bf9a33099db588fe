import Mathlib.Data.List.Sort
import Mathlib.Logic.Function.Basic
import Modelship.Foundation.Runs
import Modelship.Deploy.Names
import Modelship.Gateway.Table

namespace Modelship.Gateway
open Foundation Function

-- The three parties of a gateway's routing: the deploy coordinator that gives its
-- routing version, the gateway coordinator that computes its table, and the replicas
-- that poll for it. Every message may be late.

-- Milliseconds.
def watchTimeout : Nat := 30000
def reportTtl : Nat := 2 * watchTimeout

structure Version where
  seq : Int
  apps : Dict String String

-- `given` records every version a gateway has been given.
structure Deploy where
  routing : String → Option Version
  seq : Int
  given : List (String × Version)

-- What `switch`, `reset_routing` and the first lookup of a gateway do.
def Deploy.route (d : Deploy) (gateway : String) (apps : Dict String String) : Deploy :=
  let version : Version := ⟨d.seq + 1,apps⟩
  ⟨update d.routing gateway (some version),d.seq + 1,d.given ++ [(gateway,version)]⟩

structure Report where
  routing : Int
  generation : Int
  time : Nat

-- The gateway coordinator since its last start.
structure Coordinator where
  routing : String → Option Routing
  versions : String → Option Version
  seqs : String → Option Int
  firstGeneration : Int
  generation : String → Option Int
  computed : Bool
  watched : List String
  replicas : String → List String
  reports : String → String → Option Report

def Coordinator.start (clock : Int) : Coordinator :=
  ⟨fun _ => none,fun _ => none,fun _ => none,clock,fun _ => none,false,[],fun _ => [],fun _ _ => none⟩

def Coordinator.generationOf (c : Coordinator) (gateway : String) : Int := (c.generation gateway).getD c.firstGeneration

def Coordinator.watch (c : Coordinator) (gateway : String) : Coordinator :=
  {c with watched := if gateway ∈ c.watched then c.watched else c.watched ++ [gateway]}

-- A held poll wakes because the generation it waits on is over.
def bump (c : Coordinator) (gateway : String) : Coordinator :=
  {c with generation := update c.generation gateway (some (c.generationOf gateway + 1))}

-- Two dicts are equal whatever the order of their entries.
def sameTable (one two : Routing) : Bool :=
  decide (one.models.entries.Perm two.models.entries) && one.expected == two.expected

def publish (c : Coordinator) (gateway : String) (routing : Routing) (seq : Int) : Coordinator :=
  let changed := ((c.routing gateway).map fun previous => !sameTable previous routing).getD true
  let moved := changed || c.seqs gateway ≠ some seq
  let c := {c with routing := update c.routing gateway (some routing)}
  let c := if moved then bump c gateway else c
  {c with seqs := update c.seqs gateway (some seq)}

def freshReports (c : Coordinator) (now : Nat) (gateway : String) : Coordinator :=
  {c with reports := update c.reports gateway fun id =>
    (c.reports gateway id).filter fun report => now - report.time ≤ reportTtl}

def computeGateway (now : Nat) (listing : Dict String ServeApp) (c : Coordinator) (gateway : String) : Coordinator :=
  match c.versions gateway with
  | none => c
  | some version =>
    match computeRouting gateway version.apps (listing.mapValues statusOverview) with
    | none => c
    | some routing =>
      let running := ((listing.get? gateway).map runningReplicaIds).getD []
      freshReports (publish {c with replicas := update c.replicas gateway running} gateway routing version.seq) now gateway

-- The gateways a pass computes: those asked about, and those found through their apps.
def passGateways (c : Coordinator) (listing : Dict String ServeApp) : List String :=
  let found := listing.entries.filterMap fun app => (Modelship.Deploy.parseDeploymentName app.1).map Prod.fst
  (c.watched ++ found).dedup.insertionSort (· ≤ ·)

def getRouting (c : Coordinator) (gateway : String) : Snapshot :=
  ⟨((c.routing gateway).map Routing.models).getD Dict.empty,((c.routing gateway).map Routing.expected).getD [],
    c.generationOf gateway,c.seqs gateway⟩

def record (c : Coordinator) (gateway id : String) (since : Int) (now : Nat) : Option Int → Coordinator
  | none => c
  | some seq => {c with reports := update c.reports gateway (update (c.reports gateway) id (some ⟨seq,since,now⟩))}

def switched (c : Coordinator) (now : Nat) (gateway : String) (routing : Int) : Coordinator × Bool :=
  if c.computed = false ∨ c.seqs gateway ≠ some routing then (c,false) else
  let c := freshReports c now gateway
  (c,(c.replicas gateway).all fun id => (c.reports gateway id).any (·.routing = routing))

-- The `routing_versions` call of a pass: the gateways still to be looked up, and the
-- versions read so far.
structure Call where
  left : List String
  got : List (String × Version)

-- `call` is none once the deploy coordinator is known to be missing or lost.
structure Pass where
  listing : Dict String ServeApp
  gateways : List String
  call : Option Call

-- Where a replica's watch loop is. `polling`, `asking` and `given` are messages on the
-- way; `held` and `waiting` calls belong to one start of the gateway coordinator.
inductive Phase where
  | idle
  | polling (since : Int) (routing : Option Int)
  | held (incarnation : Nat) (first : Bool) (since : Int) (deadline : Nat)
  | told (generation : Int)
  | asking
  | waiting (incarnation : Nat)
  | given (snapshot : Snapshot)

-- `touched` records the newest routing seq of which the replica has applied any part.
structure Member where
  replica : Replica
  phase : Phase
  touched : Option Int

def Member.apply (m : Member) (unresolved : List String) (snapshot : Snapshot) : Member :=
  ⟨applySnapshot m.replica unresolved snapshot,.idle,snapshot.routing.or m.touched⟩

structure Ask where
  gateway : String
  routing : Int
  deadline : Nat
  deriving DecidableEq

-- A table as `get_routing` handed it out, and what the coordinator knew then.
structure Handed where
  gateway : String
  snapshot : Snapshot
  computed : Bool
  published : Bool

-- `strays` are calls that reach the coordinator although their replica has given them
-- up: a poll with its report, or one that only names the gateway. `asks` are the
-- `wait_switched` calls. `issued` records the last seq published for a gateway, and
-- `handed`, `applied` and `answers` record what has happened.
structure Cluster where
  now : Nat
  deploy : Deploy
  coordinator : Coordinator
  incarnation : Nat
  pass : Option Pass
  members : String → Member
  strays : List (String × Option (Int × Int))
  asks : List Ask
  issued : String → Option Int
  handed : List Handed
  applied : List (String × Snapshot)
  answers : List (Ask × Bool)

def Replica.start : Replica := ⟨Dict.empty,[],[],0,none⟩

def start (seq clock : Int) : Cluster :=
  ⟨0,⟨fun _ => none,seq,[]⟩,Coordinator.start clock,0,none,fun _ => ⟨Replica.start,.idle,none⟩,[],[],fun _ => none,[],[],[]⟩

inductive Action where
  | tick (elapsed : Nat)
  | route (gateway : String) (apps : Dict String String)
  | load (gateway : String) (apps : Dict String String)
  | deployRestarts (clock : Int)
  | restarts (clock : Int)
  | read (listing : Dict String ServeApp)
  | look
  | finishPass (answered : Bool)
  | polls (id : String)
  | pollArrives (id : String)
  | pollReturns (id : String)
  | hears (id : String)
  | syncs (id : String)
  | askArrives (id : String)
  | answers (id : String)
  | applies (id : String) (unresolved : List String)
  | fails (id : String)
  | strayArrives (index : Nat)
  | waitSwitched (gateway : String) (routing : Int) (timeout : Nat)
  | checks (index : Nat)

def Cluster.enter (s : Cluster) (id : String) (phase : Phase) : Cluster :=
  {s with members := update s.members id {s.members id with phase}}

-- The versions a pass goes on with: the answer, or the last ones where there is none.
def fetchVersions (c : Coordinator) (answered : Bool) : Option Call → Option Coordinator
  | some ⟨[],got⟩ =>
    some (if answered then {c with versions := got.foldl (fun versions entry => update versions entry.1 (some entry.2)) c.versions}
      else c)
  | _ => if answered then none else some c

def leave : Phase → Option (Option (Int × Int))
  | .polling since routing => some (routing.map (since,·))
  | .asking => some none
  | _ => none

section
-- The gateway each replica serves.
variable (home : String → String)

def arrivePoll (s : Cluster) (id : String) (since : Int) (routing : Option Int) : Cluster :=
  let gateway := home id
  let c := record (s.coordinator.watch gateway) gateway id since s.now routing
  let s := {s with coordinator := c}
  if c.computed = false then s.enter id (.held s.incarnation true since (s.now + watchTimeout)) else
  if c.generationOf gateway ≠ since then s.enter id (.told (c.generationOf gateway)) else
  s.enter id (.held s.incarnation false since (s.now + watchTimeout))

def arriveStray (s : Cluster) (id : String) : Option (Int × Int) → Coordinator
  | none => s.coordinator.watch (home id)
  | some (since,routing) => record (s.coordinator.watch (home id)) (home id) id since s.now (some routing)

-- A held poll returns once what it waits for has come, or after its timeout.
def returnPoll (s : Cluster) (id : String) (first : Bool) (since : Int) (deadline : Nat) : Option Cluster :=
  let current := s.coordinator.generationOf (home id)
  if first then
    if s.coordinator.computed ∨ deadline ≤ s.now then some (s.enter id (.told since)) else none
  else if current ≠ since ∨ deadline ≤ s.now then some (s.enter id (.told current)) else none

def next (s : Cluster) : Action → Option Cluster
  | .tick elapsed => some {s with now := s.now + elapsed}
  | .route gateway apps => some {s with deploy := s.deploy.route gateway apps}
  | .load gateway apps =>
    some {s with deploy :=
      if (s.deploy.routing gateway).isNone then s.deploy.route gateway apps
      else {s.deploy with seq := s.deploy.seq + 1}}
  | .deployRestarts clock =>
    -- a nanosecond clock, which no count of switches outruns
    if s.deploy.seq < clock then
      some {s with
        deploy := {s.deploy with routing := fun _ => none,seq := clock}
        pass := s.pass.map fun pass => {pass with call := none}}
    else none
  | .restarts clock =>
    some {s with coordinator := Coordinator.start clock,incarnation := s.incarnation + 1,pass := none,asks := []}
  | .read listing =>
    match s.pass with
    | some _ => none
    | none =>
      let gateways := passGateways s.coordinator listing
      some {s with pass := some ⟨listing,gateways,some ⟨gateways,[]⟩⟩}
  | .look =>
    match s.pass with
    | some ⟨listing,gateways,some ⟨gateway :: left,got⟩⟩ =>
      (s.deploy.routing gateway).map fun version =>
        {s with pass := some ⟨listing,gateways,some ⟨left,got ++ [(gateway,version)]⟩⟩}
    | _ => none
  | .finishPass answered =>
    match s.pass with
    | none => none
    | some pass =>
      (fetchVersions s.coordinator answered pass.call).map fun fetched =>
        let c := pass.gateways.foldl (computeGateway s.now pass.listing) fetched
        {s with
          coordinator := {c with computed := true}
          pass := none
          issued := fun gateway => (c.seqs gateway).or (s.issued gateway)}
  | .polls id =>
    match (s.members id).phase with
    | .idle => some (s.enter id (.polling (s.members id).replica.gen (s.members id).replica.routingSeq))
    | _ => none
  | .pollArrives id =>
    match (s.members id).phase with
    | .polling since routing => some (arrivePoll home s id since routing)
    | _ => none
  | .pollReturns id =>
    match (s.members id).phase with
    | .held incarnation first since deadline =>
      if incarnation = s.incarnation then returnPoll home s id first since deadline else none
    | _ => none
  | .hears id =>
    match (s.members id).phase with
    | .told generation => some (s.enter id (if generation ≠ (s.members id).replica.gen then .asking else .idle))
    | _ => none
  | .syncs id =>
    -- the blocking sync of a first request
    match (s.members id).phase with
    | .idle => some (s.enter id .asking)
    | _ => none
  | .askArrives id =>
    match (s.members id).phase with
    | .asking => some ({s with coordinator := s.coordinator.watch (home id)}.enter id (.waiting s.incarnation))
    | _ => none
  | .answers id =>
    match (s.members id).phase with
    | .waiting incarnation =>
      if incarnation = s.incarnation ∧ s.coordinator.computed then
        let snapshot := getRouting s.coordinator (home id)
        let handed : Handed := ⟨home id,snapshot,s.coordinator.computed,(s.coordinator.routing (home id)).isSome⟩
        some ({s with handed := s.handed ++ [handed]}.enter id (.given snapshot))
      else none
    | _ => none
  | .applies id unresolved =>
    match (s.members id).phase with
    | .given snapshot =>
      some {s with
        members := update s.members id ((s.members id).apply unresolved snapshot)
        applied := s.applied ++ [(id,snapshot)]}
    | _ => none
  | .fails id =>
    some ({s with strays := s.strays ++ ((leave (s.members id).phase).toList.map (id,·))}.enter id .idle)
  | .strayArrives index =>
    match s.strays[index]? with
    | none => none
    | some (id,report) => some {s with coordinator := arriveStray home s id report,strays := s.strays.eraseIdx index}
  | .waitSwitched gateway routing timeout =>
    some {s with
      coordinator := s.coordinator.watch gateway
      asks := s.asks ++ [⟨gateway,routing,s.now + timeout⟩]}
  | .checks index =>
    match s.asks[index]? with
    | none => none
    | some ask =>
      let (c,held) := switched s.coordinator s.now ask.gateway ask.routing
      let s := {s with coordinator := c}
      if held then some {s with asks := s.asks.eraseIdx index,answers := s.answers ++ [(ask,true)]} else
      if ask.deadline ≤ s.now then some {s with asks := s.asks.eraseIdx index,answers := s.answers ++ [(ask,false)]}
      else some s

end

-- A replica's phase between its calls; none of them says anything of a table.
def Phase.Bare : Phase → Prop
  | .idle | .told _ | .asking => True
  | _ => False

def handedNow (home : String → String) (s : Cluster) (id : String) : Handed :=
  ⟨home id,getRouting s.coordinator (home id),s.coordinator.computed,(s.coordinator.routing (home id)).isSome⟩

-- Everything that a step can do.
inductive Goes (home : String → String) (s : Cluster) : Action → Cluster → Prop where
  | tick (elapsed) : Goes home s (.tick elapsed) {s with now := s.now + elapsed}
  | route (gateway apps) : Goes home s (.route gateway apps) {s with deploy := s.deploy.route gateway apps}
  | loads (gateway apps) (blank : (s.deploy.routing gateway).isNone = true) :
      Goes home s (.load gateway apps) {s with deploy := s.deploy.route gateway apps}
  | counts (gateway apps) : Goes home s (.load gateway apps) {s with deploy := {s.deploy with seq := s.deploy.seq + 1}}
  | deployRestarts (clock) (late : s.deploy.seq < clock) : Goes home s (.deployRestarts clock) {s with
      deploy := {s.deploy with routing := fun _ => none,seq := clock}
      pass := s.pass.map fun pass => {pass with call := none}}
  | restarts (clock) : Goes home s (.restarts clock)
      {s with coordinator := Coordinator.start clock,incarnation := s.incarnation + 1,pass := none,asks := []}
  | reads (listing) (idle : s.pass = none) : Goes home s (.read listing) {s with
      pass := some ⟨listing,passGateways s.coordinator listing,some ⟨passGateways s.coordinator listing,[]⟩⟩}
  | looks (listing gateways gateway left got version)
      (passing : s.pass = some ⟨listing,gateways,some ⟨gateway :: left,got⟩⟩) (routed : s.deploy.routing gateway = some version) :
      Goes home s .look {s with pass := some ⟨listing,gateways,some ⟨left,got ++ [(gateway,version)]⟩⟩}
  | passes (answered pass fetched) (passing : s.pass = some pass)
      (done : fetchVersions s.coordinator answered pass.call = some fetched) : Goes home s (.finishPass answered) {s with
        coordinator := {pass.gateways.foldl (computeGateway s.now pass.listing) fetched with computed := true}
        pass := none
        issued := fun gateway =>
          ((pass.gateways.foldl (computeGateway s.now pass.listing) fetched).seqs gateway).or (s.issued gateway)}
  | polls (id) (idle : (s.members id).phase = .idle) : Goes home s (.polls id)
      (s.enter id (.polling (s.members id).replica.gen (s.members id).replica.routingSeq))
  | arrives (id since routing) (polling : (s.members id).phase = .polling since routing) :
      Goes home s (.pollArrives id) (arrivePoll home s id since routing)
  | enters (action id phase) (bare : phase.Bare) : Goes home s action (s.enter id phase)
  | asks (id) (asking : (s.members id).phase = .asking) : Goes home s (.askArrives id)
      ({s with coordinator := s.coordinator.watch (home id)}.enter id (.waiting s.incarnation))
  | hands (id) (waiting : (s.members id).phase = .waiting s.incarnation) (computed : s.coordinator.computed = true) :
      Goes home s (.answers id)
        ({s with handed := s.handed ++ [handedNow home s id]}.enter id (.given (getRouting s.coordinator (home id))))
  | applies (id unresolved snapshot) (carried : (s.members id).phase = .given snapshot) :
      Goes home s (.applies id unresolved) {s with
        members := update s.members id ((s.members id).apply unresolved snapshot)
        applied := s.applied ++ [(id,snapshot)]}
  | fails (id) : Goes home s (.fails id)
      ({s with strays := s.strays ++ ((leave (s.members id).phase).toList.map (id,·))}.enter id .idle)
  | strays (index id report) (stray : s.strays[index]? = some (id,report)) : Goes home s (.strayArrives index)
      {s with coordinator := arriveStray home s id report,strays := s.strays.eraseIdx index}
  | waits (gateway routing timeout) : Goes home s (.waitSwitched gateway routing timeout) {s with
      coordinator := s.coordinator.watch gateway
      asks := s.asks ++ [⟨gateway,routing,s.now + timeout⟩]}
  | answers (index ask held) (asked : s.asks[index]? = some ask)
      (told : held = true ↔ (switched s.coordinator s.now ask.gateway ask.routing).2 = true) : Goes home s (.checks index) {s with
        coordinator := (switched s.coordinator s.now ask.gateway ask.routing).1
        asks := s.asks.eraseIdx index
        answers := s.answers ++ [(ask,held)]}
  | stays (index ask) (asked : s.asks[index]? = some ask) : Goes home s (.checks index)
      {s with coordinator := (switched s.coordinator s.now ask.gateway ask.routing).1}

section
variable {home : String → String} {s t : Cluster}

theorem returnPoll_told {id : String} {first : Bool} {since : Int} {deadline : Nat}
    (returned : returnPoll home s id first since deadline = some t) : ∃ generation, t = s.enter id (.told generation) := by
  unfold returnPoll at returned
  dsimp only at returned
  split at returned
  · split at returned
    · exact ⟨since,(Option.some.inj returned).symm⟩
    · cases returned
  · split at returned
    · exact ⟨s.coordinator.generationOf (home id),(Option.some.inj returned).symm⟩
    · cases returned

theorem next_goes {action : Action} (taken : next home s action = some t) : Goes home s action t := by
  cases action with
  | tick elapsed =>
      cases taken
      exact .tick elapsed
  | route gateway apps =>
      cases taken
      exact .route gateway apps
  | load gateway apps =>
      cases taken
      split
      case isTrue blank => exact .loads gateway apps blank
      case isFalse => exact .counts gateway apps
  | deployRestarts clock =>
      simp only [next] at taken
      split at taken
      case isTrue late =>
        cases taken
        exact .deployRestarts clock late
      case isFalse => cases taken
  | restarts clock =>
      cases taken
      exact .restarts clock
  | read listing =>
      simp only [next] at taken
      split at taken
      case h_1 => cases taken
      case h_2 idle =>
        cases taken
        exact .reads listing idle
  | look =>
      simp only [next] at taken
      split at taken
      case h_1 listing gateways gateway left got passing =>
        obtain ⟨version,routed,rfl⟩ := Option.map_eq_some_iff.mp taken
        exact .looks listing gateways gateway left got version passing routed
      case h_2 => cases taken
  | finishPass answered =>
      simp only [next] at taken
      split at taken
      case h_1 => cases taken
      case h_2 pass passing =>
        obtain ⟨fetched,done,rfl⟩ := Option.map_eq_some_iff.mp taken
        exact .passes answered pass fetched passing done
  | polls id =>
      simp only [next] at taken
      split at taken
      case h_1 idle =>
        cases taken
        exact .polls id idle
      case h_2 => cases taken
  | pollArrives id =>
      simp only [next] at taken
      split at taken
      case h_1 since routing polling =>
        cases taken
        exact .arrives id since routing polling
      case h_2 => cases taken
  | pollReturns id =>
      simp only [next] at taken
      split at taken
      · split at taken
        · obtain ⟨generation,rfl⟩ := returnPoll_told taken
          exact .enters _ id _ trivial
        · cases taken
      · cases taken
  | hears id =>
      simp only [next] at taken
      split at taken
      · cases taken
        apply Goes.enters
        split <;> trivial
      · cases taken
  | syncs id =>
      simp only [next] at taken
      split at taken
      · cases taken
        exact .enters _ id _ trivial
      · cases taken
  | askArrives id =>
      simp only [next] at taken
      split at taken
      case h_1 asking =>
        cases taken
        exact .asks id asking
      case h_2 => cases taken
  | answers id =>
      simp only [next] at taken
      split at taken
      case h_1 incarnation waiting =>
        split at taken
        case isTrue ready =>
          cases taken
          exact .hands id (ready.1 ▸ waiting) ready.2
        case isFalse => cases taken
      case h_2 => cases taken
  | applies id unresolved =>
      simp only [next] at taken
      split at taken
      case h_1 snapshot carried =>
        cases taken
        exact .applies id unresolved snapshot carried
      case h_2 => cases taken
  | fails id =>
      cases taken
      exact .fails id
  | strayArrives index =>
      simp only [next] at taken
      split at taken
      case h_1 => cases taken
      case h_2 id report stray =>
        cases taken
        exact .strays index id report stray
  | waitSwitched gateway routing timeout =>
      cases taken
      exact .waits gateway routing timeout
  | checks index =>
      simp only [next] at taken
      split at taken
      case h_1 => cases taken
      case h_2 ask asked =>
        split at taken
        case isTrue held =>
          cases taken
          exact .answers index ask true asked (iff_of_true rfl held)
        case isFalse unheld =>
          split at taken
          · cases taken
            exact .answers index ask false asked (iff_of_false Bool.false_ne_true unheld)
          · cases taken
            exact .stays index ask asked

end

end Modelship.Gateway
