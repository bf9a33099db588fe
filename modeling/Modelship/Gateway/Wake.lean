import Modelship.Gateway.Generations

namespace Modelship.Gateway
open Foundation Function

-- The cluster with the events that its polls wait for. A poll held after the first pass
-- returns once `_bump` has set its event, or after its timeout.

-- `change` holds the event that a gateway's polls now wait for, `fired` those set.
structure Events where
  change : String → Option Nat
  fired : List Nat
  made : Nat

def Events.await (e : Events) (gateway : String) : Events × Nat :=
  match e.change gateway with
  | some event => (e,event)
  | none => ({e with change := update e.change gateway (some e.made),made := e.made + 1},e.made)

def Events.ring (e : Events) (gateway : String) : Events :=
  match e.change gateway with
  | none => e
  | some event => {e with change := update e.change gateway none,fired := e.fired ++ [event]}

def bumpWaking (c : Coordinator × Events) (gateway : String) : Coordinator × Events := (bump c.1 gateway,c.2.ring gateway)

def publishWaking (c : Coordinator × Events) (gateway : String) (routing : Routing) (seq : Int) : Coordinator × Events :=
  let changed := ((c.1.routing gateway).map fun previous => !sameTable previous routing).getD true
  let moved := changed || c.1.seqs gateway ≠ some seq
  let c := ({c.1 with routing := update c.1.routing gateway (some routing)},c.2)
  let c := if moved then bumpWaking c gateway else c
  ({c.1 with seqs := update c.1.seqs gateway (some seq)},c.2)

def computeWaking (now : Nat) (listing : Dict String ServeApp) (c : Coordinator × Events) (gateway : String) :
    Coordinator × Events :=
  match c.1.versions gateway with
  | none => c
  | some version =>
    match computeRouting gateway version.apps (listing.mapValues statusOverview) with
    | none => c
    | some routing =>
      let running := ((listing.get? gateway).map runningReplicaIds).getD []
      let c := publishWaking ({c.1 with replicas := update c.1.replicas gateway running},c.2) gateway routing version.seq
      (freshReports c.1 now gateway,c.2)

-- `awaits` is the event of the poll a replica is in.
structure Waits where
  cluster : Cluster
  events : Events
  awaits : String → Option Nat

def startWaits (seq clock : Int) : Waits := ⟨start seq clock,⟨fun _ => none,[],0⟩,fun _ => none⟩

-- `strayWaits` is a poll that its replica has given up and that waits all the same.
inductive Turn where
  | acts (action : Action)
  | strayWaits (gateway : String)

def Turn.action : Turn → Option Action
  | .acts action => some action
  | .strayWaits _ => none

-- What a held poll waits for has come.
def woken (w : Waits) (id : String) (first : Bool) : Bool :=
  if first then w.cluster.coordinator.computed else (w.awaits id).any (· ∈ w.events.fired)

def nextWaits (home : String → String) (w : Waits) : Turn → Option Waits
  | .strayWaits gateway =>
    if w.cluster.coordinator.computed then some {w with events := (w.events.await gateway).1} else none
  | .acts (.restarts clock) =>
    (next home w.cluster (.restarts clock)).map fun cluster => {w with cluster,events := {w.events with change := fun _ => none}}
  | .acts (.finishPass answered) =>
    match w.cluster.pass with
    | none => none
    | some pass =>
      (fetchVersions w.cluster.coordinator answered pass.call).map fun fetched =>
        let (c,events) := pass.gateways.foldl (computeWaking w.cluster.now pass.listing) (fetched,w.events)
        {w with
          cluster := {w.cluster with
            coordinator := {c with computed := true}
            pass := none
            issued := fun gateway => (c.seqs gateway).or (w.cluster.issued gateway)}
          events}
  | .acts (.pollArrives id) =>
    (next home w.cluster (.pollArrives id)).map fun cluster =>
      match (cluster.members id).phase with
      | .held _ false _ _ =>
        let (events,event) := w.events.await (home id)
        ⟨cluster,events,update w.awaits id (some event)⟩
      | _ => {w with cluster}
  | .acts (.pollReturns id) =>
    match (w.cluster.members id).phase with
    | .held incarnation first since deadline =>
      if incarnation = w.cluster.incarnation ∧ (woken w id first ∨ deadline ≤ w.cluster.now) then
        let generation := if first then since else w.cluster.coordinator.generationOf (home id)
        some {w with cluster := w.cluster.enter id (.told generation)}
      else none
    | _ => none
  | .acts action => (next home w.cluster action).map fun cluster => {w with cluster}

-- An event is set once, and two gateways have no event in common.
structure Events.Sound (e : Events) : Prop where
  fired : ∀ event ∈ e.fired, event < e.made
  waiting : ∀ gateway event, e.change gateway = some event → event < e.made ∧ event ∉ e.fired
  apart : ∀ gateway other event, e.change gateway = some event → e.change other = some event → gateway = other

section
variable {e : Events} {gateway other : String} {event : Nat}

theorem await_change (e : Events) (gateway : String) : (e.await gateway).1.change gateway = some (e.await gateway).2 := by
  unfold Events.await
  split
  · assumption
  · exact update_self _ _ _

theorem await_fired (e : Events) (gateway : String) : (e.await gateway).1.fired = e.fired := by
  unfold Events.await
  split <;> rfl

theorem await_keeps (gateway : String) (held : e.change other = some event) :
    (e.await gateway).1.change other = some event := by
  unfold Events.await
  split
  · exact held
  · rename_i absent
    have apart : other ≠ gateway := by
      intro same
      rw [same,absent] at held
      cases held
    exact (update_of_ne apart _ _).trans held

theorem Events.Sound.awaits (sound : e.Sound) (gateway : String) : (e.await gateway).1.Sound := by
  unfold Events.await
  split
  · exact sound
  · constructor
    · intro event set
      exact Nat.lt_succ_of_lt (sound.fired event set)
    · intro other event held
      dsimp only at held ⊢
      by_cases same : other = gateway
      · rw [same,update_self] at held
        cases held
        exact ⟨Nat.lt_succ_self _,fun set => Nat.lt_irrefl _ (sound.fired _ set)⟩
      · rw [update_of_ne same] at held
        obtain ⟨made,unset⟩ := sound.waiting other event held
        exact ⟨Nat.lt_succ_of_lt made,unset⟩
    · -- the new event is none of the old ones
      intro one two event first second
      dsimp only at first second
      by_cases here : one = gateway
      · by_cases there : two = gateway
        · rw [here,there]
        · rw [here,update_self] at first
          rw [update_of_ne there] at second
          cases first
          exact absurd (sound.waiting two _ second).1 (Nat.lt_irrefl _)
      · rw [update_of_ne here] at first
        by_cases there : two = gateway
        · rw [there,update_self] at second
          cases second
          exact absurd (sound.waiting one _ first).1 (Nat.lt_irrefl _)
        · rw [update_of_ne there] at second
          exact sound.apart one two event first second

theorem ring_fired (gateway : String) (set : event ∈ e.fired) : event ∈ (e.ring gateway).fired := by
  unfold Events.ring
  split
  · exact set
  · exact List.mem_append_left _ set

theorem ring_sets (held : e.change gateway = some event) : event ∈ (e.ring gateway).fired := by
  unfold Events.ring
  rw [held]
  exact List.mem_append_right _ (List.mem_singleton_self event)

theorem ring_keeps (apart : other ≠ gateway) : (e.ring gateway).change other = e.change other := by
  unfold Events.ring
  split
  · rfl
  · exact update_of_ne apart _ _

theorem Events.Sound.rings (sound : e.Sound) (gateway : String) : (e.ring gateway).Sound := by
  unfold Events.ring
  split
  · exact sound
  · rename_i rung held
    have still : ∀ other event, update e.change gateway none other = some event → e.change other = some event ∧ other ≠ gateway := by
      intro other event found
      by_cases same : other = gateway
      · rw [same,update_self] at found
        cases found
      · rw [update_of_ne same] at found
        exact ⟨found,same⟩
    constructor
    · intro event set
      rcases List.mem_append.mp set with old | new
      · exact sound.fired event old
      · rw [List.mem_singleton.mp new]
        exact (sound.waiting gateway rung held).1
    · intro other event found
      obtain ⟨before,apart⟩ := still other event found
      obtain ⟨made,unset⟩ := sound.waiting other event before
      refine ⟨made,?_⟩
      intro set
      rcases List.mem_append.mp set with old | new
      · exact unset old
      · rw [List.mem_singleton.mp new] at before
        exact apart (sound.apart other gateway rung before held)
    · intro one two event first second
      exact sound.apart one two event (still one event first).1 (still two event second).1

end

-- Either the poll's event has been set since its generation ended, or it waits for the
-- gateway's next event at the gateway's generation.
def Awaited (c : Coordinator) (e : Events) (gateway : String) (since : Int) (event : Nat) : Prop :=
  event ∈ e.fired ∧ since < c.generationOf gateway ∨ e.change gateway = some event ∧ since = c.generationOf gateway

section
variable {c d : Coordinator} {e : Events} {gateway other : String} {since : Int} {event : Nat}

theorem Awaited.frame (awaited : Awaited c e gateway since event) (same : d.generationOf gateway = c.generationOf gateway) :
    Awaited d e gateway since event := by
  unfold Awaited
  rw [same]
  exact awaited

theorem Awaited.awaits (awaited : Awaited c e gateway since event) (other : String) :
    Awaited c (e.await other).1 gateway since event := by
  rcases awaited with ⟨set,past⟩ | ⟨held,level⟩
  · exact .inl ⟨(await_fired e other).symm ▸ set,past⟩
  · exact .inr ⟨await_keeps other held,level⟩

-- The poll returns at its event only when the generation it waits on is over.
theorem Awaited.over (awaited : Awaited c e gateway since event) (sound : e.Sound) (set : event ∈ e.fired) :
    since < c.generationOf gateway := by
  rcases awaited with ⟨_,past⟩ | ⟨held,_⟩
  · exact past
  · exact absurd set (sound.waiting gateway event held).2

-- What publishing does to the tables and what it does to the events.
structure Wakes (one two : Coordinator × Events) : Prop where
  sound : one.2.Sound → two.2.Sound
  awaited : ∀ gateway since event, Awaited one.1 one.2 gateway since event → Awaited two.1 two.2 gateway since event

theorem Wakes.trans {one two three : Coordinator × Events} (first : Wakes one two) (second : Wakes two three) :
    Wakes one three :=
  ⟨fun sound => second.sound (first.sound sound),
    fun gateway since event awaited => second.awaited gateway since event (first.awaited gateway since event awaited)⟩

theorem publishWaking_parts (c : Coordinator × Events) (gateway : String) (routing : Routing) (seq : Int) :
    publishWaking c gateway routing seq =
      (publish c.1 gateway routing seq,if moved c.1 gateway routing seq then c.2.ring gateway else c.2) := by
  unfold publishWaking publish
  cases changes : moved c.1 gateway routing seq with
  | true =>
      unfold moved at changes
      simp only [changes,if_true]
      rfl
  | false =>
      unfold moved at changes
      simp only [changes]
      rfl

theorem publishWaking_wakes (c : Coordinator × Events) (gateway : String) (routing : Routing) (seq : Int) :
    Wakes c (publishWaking c gateway routing seq) := by
  rw [publishWaking_parts]
  refine ⟨?_,?_⟩
  · intro sound
    dsimp only
    split
    · exact sound.rings gateway
    · exact sound
  · intro other since event awaited
    have generation := publish_generation c.1 gateway routing seq other
    dsimp only
    cases changes : moved c.1 gateway routing seq with
    | false =>
        rw [if_neg (fun both => absurd both.2 (by rw [changes]; nofun))] at generation
        exact awaited.frame generation
    | true =>
        rw [if_pos rfl]
        by_cases here : other = gateway
        · subst here
          rw [if_pos ⟨rfl,changes⟩] at generation
          left
          rw [generation]
          rcases awaited with ⟨set,past⟩ | ⟨held,level⟩
          · exact ⟨ring_fired other set,by omega⟩
          · exact ⟨ring_sets held,by omega⟩
        · rw [if_neg (fun both => here both.1)] at generation
          unfold Awaited
          rw [generation,ring_keeps here]
          exact awaited.imp_left fun ended => ⟨ring_fired gateway ended.1,ended.2⟩

theorem computeWaking_wakes (now : Nat) (listing : Dict String ServeApp) (c : Coordinator × Events) (gateway : String) :
    (computeWaking now listing c gateway).1 = computeGateway now listing c.1 gateway ∧
      Wakes c (computeWaking now listing c gateway) := by
  have idle : Wakes c c := ⟨id,fun _ _ _ => id⟩
  unfold computeWaking computeGateway
  cases c.1.versions gateway with
  | none => exact ⟨rfl,idle⟩
  | some version =>
      dsimp only
      cases computeRouting gateway version.apps (listing.mapValues statusOverview) with
      | none => exact ⟨rfl,idle⟩
      | some routing =>
          dsimp only
          generalize ((listing.get? gateway).map runningReplicaIds).getD [] = running
          have published := publishWaking_wakes ({c.1 with replicas := update c.1.replicas gateway running},c.2) gateway
            routing version.seq
          refine ⟨?_,published.sound,?_⟩
          · rw [publishWaking_parts]
          · intro other since event awaited
            exact published.awaited other since event awaited

theorem pass_wakes (now : Nat) (listing : Dict String ServeApp) (gateways : List String) (c : Coordinator × Events) :
    (gateways.foldl (computeWaking now listing) c).1 = gateways.foldl (computeGateway now listing) c.1 ∧
      Wakes c (gateways.foldl (computeWaking now listing) c) := by
  induction gateways generalizing c with
  | nil => exact ⟨rfl,id,fun _ _ _ => id⟩
  | cons gateway rest ih =>
      obtain ⟨same,wakes⟩ := computeWaking_wakes now listing c gateway
      obtain ⟨later,others⟩ := ih (computeWaking now listing c gateway)
      rw [same] at later
      exact ⟨later,wakes.trans others⟩

end

-- Nothing has been published since the coordinator's start.
def Unstarted (c : Coordinator) : Prop :=
  c.computed = false ∧ ∀ gateway, Unpublished c gateway ∧ c.generation gateway = none

structure Waiting (home : String → String) (w : Waits) : Prop where
  sound : w.events.Sound
  past : ∀ id incarnation first since deadline,
    (w.cluster.members id).phase = .held incarnation first since deadline → incarnation ≤ w.cluster.incarnation
  held : ∀ id since deadline, (w.cluster.members id).phase = .held w.cluster.incarnation false since deadline →
    ∃ event, w.awaits id = some event ∧ Awaited w.cluster.coordinator w.events (home id) since event
  blank : w.cluster.coordinator.computed = false → Unstarted w.cluster.coordinator

-- The steps that move a poll or an event.
def Action.wakes : Action → Bool
  | .restarts _ => true
  | .finishPass _ => true
  | .pollArrives _ => true
  | _ => false

section
variable {home : String → String} {w v : Waits} {t : Cluster}

theorem Keeps.blank {c d : Coordinator} (keeps : Keeps c d) (blank : c.computed = false → Unstarted c) :
    d.computed = false → Unstarted d := by
  intro early
  obtain ⟨_,nothing⟩ := blank (keeps.computed ▸ early)
  refine ⟨early,?_⟩
  unfold Unpublished
  rw [keeps.routing,keeps.seqs,keeps.generation]
  exact nothing

-- A step that leaves the generations and the events alone, and begins no poll but one
-- that waits for the first pass.
theorem Waiting.frame (waiting : Waiting home w) (keeps : Keeps w.cluster.coordinator t.coordinator)
    (incarnation : t.incarnation = w.cluster.incarnation)
    (held : ∀ id number first since deadline, (t.members id).phase = .held number first since deadline →
      (w.cluster.members id).phase = .held number first since deadline ∨ first = true ∧ number = w.cluster.incarnation) :
    Waiting home {w with cluster := t} where
  sound := waiting.sound
  past := by
    intro id number first since deadline phase
    dsimp only
    rw [incarnation]
    rcases held id number first since deadline phase with before | ⟨_,now⟩
    · exact waiting.past id number first since deadline before
    · exact Nat.le_of_eq now
  held := by
    intro id since deadline phase
    dsimp only at phase
    rw [incarnation] at phase
    rcases held id _ false since deadline phase with before | ⟨first,_⟩
    · obtain ⟨event,named,awaited⟩ := waiting.held id since deadline before
      exact ⟨event,named,awaited.frame (keeps.generationOf (home id))⟩
    · cases first
  blank := keeps.blank waiting.blank

theorem Waiting.takes {action : Action} (waiting : Waiting home w) (plain : action.wakes = false)
    (taken : next home w.cluster action = some t) : Waiting home {w with cluster := t} := by
  cases next_steps taken with
  | still action t still =>
      refine waiting.frame still.coordinator still.incarnation ?_
      intro id number first since deadline phase
      rcases still.phase id with same | light
      · exact .inl (same.symm.trans phase)
      · rw [phase] at light
        exact light.elim
  | hands id =>
      refine waiting.frame (Keeps.refl _) rfl ?_
      intro other number first since deadline phase
      rw [enter_phases] at phase
      split at phase
      · cases phase
      · exact .inl phase
  | applies id unresolved snapshot carried =>
      refine waiting.frame (Keeps.refl _) rfl ?_
      intro other number first since deadline phase
      dsimp only at phase
      by_cases same : other = id
      · rw [same,update_self] at phase
        cases phase
      · rw [update_of_ne same] at phase
        exact .inl phase
  | restarts clock => cases plain
  | passes answered pass fetched passing done => cases plain
  | arrives id since routing polling => cases plain

theorem Waiting.restarts (waiting : Waiting home w) (clock : Int) : Waiting home {w with
    cluster := {w.cluster with
      coordinator := Coordinator.start clock,incarnation := w.cluster.incarnation + 1,pass := none,asks := []}
    events := {w.events with change := fun _ => none}} where
  sound := ⟨waiting.sound.fired,nofun,nofun⟩
  past := by
    intro id incarnation first since deadline phase
    exact Nat.le_succ_of_le (waiting.past id incarnation first since deadline phase)
  held := by
    intro id since deadline phase
    exact absurd (waiting.past id _ false since deadline phase) (Nat.not_succ_le_self _)
  blank := fun early => ⟨early,fun _ => ⟨⟨rfl,rfl⟩,rfl⟩⟩

-- A poll that reaches the coordinator at its generation waits for the next event.
theorem Waiting.arrives {id : String} {since : Int} {routing : Option Int} (waiting : Waiting home w)
    (arrived : nextWaits home w (.acts (.pollArrives id)) = some v) (polling : (w.cluster.members id).phase = .polling since routing) :
    v.cluster = arrivePoll home w.cluster id since routing ∧ Waiting home v := by
  obtain ⟨c,phase,keeps,after,ends⟩ := arrivePoll_cases home w.cluster id since routing
  have taken : next home w.cluster (.pollArrives id) = some (arrivePoll home w.cluster id since routing) := by
    simp only [next,polling]
  have phases : ∀ other, (({w.cluster with coordinator := c}.enter id phase).members other).phase =
      if other = id then phase else (w.cluster.members other).phase := fun other => enter_phases _ id other phase
  simp only [nextWaits,taken,Option.map_some,after,phases id,if_true] at arrived
  rw [after]
  rcases ends with ⟨_,rfl⟩ | ⟨_,_,rfl⟩ | ⟨ready,level,rfl⟩
  · cases arrived
    refine ⟨rfl,waiting.frame keeps rfl ?_⟩
    intro other number first began deadline held
    rw [phases other] at held
    split at held
    · cases held
      exact .inr ⟨rfl,rfl⟩
    · exact .inl held
  · cases arrived
    refine ⟨rfl,waiting.frame keeps rfl ?_⟩
    intro other number first began deadline held
    rw [phases other] at held
    split at held
    · cases held
    · exact .inl held
  · cases arrived
    refine ⟨rfl,waiting.sound.awaits (home id),?_,?_,keeps.blank waiting.blank⟩
    · intro other number first began deadline held
      rw [phases other] at held
      split at held
      · cases held
        exact Nat.le_refl _
      · exact waiting.past other number first began deadline held
    · intro other began deadline held
      have generation : ∀ gateway, ({w.cluster with coordinator := c}.enter id (.held w.cluster.incarnation false since
          (w.cluster.now + watchTimeout))).coordinator.generationOf gateway = w.cluster.coordinator.generationOf gateway :=
        keeps.generationOf
      change ∃ event, update w.awaits id _ other = some event ∧ _
      rw [phases other] at held
      by_cases same : other = id
      · rw [if_pos same] at held
        cases held
        subst same
        exact ⟨_,update_self _ _ _,.inr ⟨await_change w.events (home other),by rw [generation]; exact level.symm⟩⟩
      · rw [if_neg same] at held
        rw [update_of_ne same]
        obtain ⟨event,named,awaited⟩ := waiting.held other began deadline held
        exact ⟨event,named,(awaited.awaits (home id)).frame (generation (home other))⟩

-- A poll that its event wakes is told a generation other than its own.
theorem Waiting.returns {id : String} (waiting : Waiting home w) (returned : nextWaits home w (.acts (.pollReturns id)) = some v) :
    next home w.cluster (.pollReturns id) = some v.cluster ∧ Waiting home v := by
  simp only [nextWaits] at returned
  split at returned
  · rename_i number first since deadline phase
    split at returned
    · rename_i ready
      cases returned
      obtain ⟨rfl,wakes⟩ := ready
      refine ⟨?_,waiting.frame (Keeps.refl _) rfl ?_⟩
      · simp only [next,phase,if_true]
        unfold returnPoll
        dsimp only
        unfold woken at wakes
        cases first with
        | true =>
            simp only [if_true] at wakes ⊢
            rw [if_pos wakes]
        | false =>
            simp only [Bool.false_eq_true,if_false] at wakes ⊢
            rw [if_pos]
            refine wakes.imp_left ?_
            intro set
            obtain ⟨event,named,awaited⟩ := waiting.held id since deadline phase
            rw [named,Option.any_some,decide_eq_true_eq] at set
            exact ne_of_gt (awaited.over waiting.sound set)
      · intro other number first began last held
        rw [enter_phases] at held
        split at held
        · cases held
        · exact .inl held
    · cases returned
  · cases returned

theorem Waiting.passes {answered : Bool} (waiting : Waiting home w)
    (finished : nextWaits home w (.acts (.finishPass answered)) = some v) :
    next home w.cluster (.finishPass answered) = some v.cluster ∧ Waiting home v := by
  simp only [nextWaits] at finished
  split at finished
  · cases finished
  · rename_i pass passing
    obtain ⟨fetched,done,rfl⟩ := Option.map_eq_some_iff.mp finished
    obtain ⟨same,wakes⟩ := pass_wakes w.cluster.now pass.listing pass.gateways (fetched,w.events)
    have keeps := fetchVersions_keeps done
    constructor
    · simp only [next,passing,done,Option.map_some,same]
    · refine ⟨wakes.sound waiting.sound,waiting.past,?_,?_⟩
      · intro id since deadline phase
        obtain ⟨event,named,awaited⟩ := waiting.held id since deadline phase
        refine ⟨event,named,?_⟩
        exact (wakes.awaited (home id) since event (awaited.frame (keeps.generationOf (home id)))).frame rfl
      · intro early
        cases early

-- Every step of the cluster with its events is a step of the cluster.
theorem nextWaits_simulates (w : Waits) (turn : Turn) (v : Waits) (waiting : Waiting home w)
    (taken : nextWaits home w turn = some v) : Simulates (next home) Waits.cluster w v turn.action ∧ Waiting home v := by
  cases turn with
  | strayWaits gateway =>
      simp only [nextWaits] at taken
      split at taken
      · cases taken
        refine ⟨rfl,waiting.sound.awaits gateway,waiting.past,?_,waiting.blank⟩
        intro id since deadline phase
        obtain ⟨event,named,awaited⟩ := waiting.held id since deadline phase
        exact ⟨event,named,awaited.awaits gateway⟩
      · cases taken
  | acts action =>
      cases action with
      | restarts clock =>
          cases taken
          exact ⟨rfl,waiting.restarts clock⟩
      | finishPass answered => exact waiting.passes taken
      | pollArrives id =>
          cases at_ : (w.cluster.members id).phase with
          | polling since routing =>
              obtain ⟨same,still⟩ := waiting.arrives taken at_
              refine ⟨?_,still⟩
              change next home w.cluster (.pollArrives id) = some v.cluster
              rw [same]
              simp only [next,at_]
          | _ => simp [nextWaits,next,at_] at taken
      | pollReturns id => exact waiting.returns taken
      | _ =>
          simp only [nextWaits] at taken
          obtain ⟨t,stepped,rfl⟩ := Option.map_eq_some_iff.mp taken
          exact ⟨stepped,waiting.takes rfl stepped⟩

theorem startWaits_waiting (home : String → String) (seq clock : Int) : Waiting home (startWaits seq clock) :=
  ⟨⟨nofun,nofun,nofun⟩,nofun,nofun,fun early => ⟨early,fun _ => ⟨⟨rfl,rfl⟩,rfl⟩⟩⟩

end

-- The replica's table is the published one, with its seq; it is the empty one where none
-- has been published.
def Mirrored (c : Coordinator) (gateway : String) (replica : Replica) : Prop :=
  (∃ routing seq, c.routing gateway = some routing ∧ c.seqs gateway = some seq ∧
    (∀ app model, Routes replica app model ↔ routing.models.get? app = some model) ∧ replica.routingSeq = some seq) ∨
  c.routing gateway = none ∧ replica.models = Dict.empty ∧ replica.routingSeq = none

theorem Tidy.bare {replica : Replica} (tidy : Tidy replica) (bare : ∀ app model, ¬Routes replica app model) :
    replica.models = Dict.empty := by
  have entries : replica.models.entries = [] := by
    apply List.eq_nil_iff_forall_not_mem.mpr
    intro ⟨model,handles⟩ member
    have found := Dict.mem_get_some member
    obtain ⟨app,within⟩ := List.exists_mem_of_ne_nil handles (tidy.served model handles found)
    exact bare app model ⟨handles,found,within⟩
  cases models : replica.models with
  | mk list distinct =>
      rw [models] at entries
      subst entries
      rfl

theorem MemberLevel.mirrored {given : List (String × Version)} {issued : String → Option Int} {handed : List Handed}
    {c : Coordinator} {gateway : String} {m : Member} (level : MemberLevel gateway handed (getRouting c gateway) m)
    (valid : CoordinatorValid given issued c) (same : m.replica.gen = c.generationOf gateway) : Mirrored c gateway m.replica := by
  obtain ⟨routes,seq⟩ : Holds m.replica (getRouting c gateway) := by
    rcases level.behind with less | ⟨_,holds⟩
    · exact absurd less (Int.not_lt.mpr (Int.le_of_eq same.symm))
    · exact holds
  rcases valid.published gateway with ⟨table,nothing⟩ | ⟨version,routing,_,table,published,_⟩
  · refine .inr ⟨table,level.tidy.bare ?_,seq.trans nothing⟩
    intro app model held
    have found := (routes app model).mp held
    simp only [getRouting,table] at found
    cases found
  · refine .inl ⟨routing,version.seq,table,published,?_,seq.trans published⟩
    intro app model
    rw [routes app model]
    simp only [getRouting,table,Option.map_some,Option.getD_some]

-- A replica at the coordinator's generation holds the published table. One that is not
-- waits for no publication: what its poll waits for has come, so that it can return at
-- once, unless there has been none since the coordinator's start.
theorem equal_generation_is_equal_table (home : String → String) {seq clock : Int} {turns : List Turn} {w : Waits}
    (begun : 0 < clock)
    (promised : Meets (nextWaits home) (Asked Waits.cluster Turn.action Promised) (startWaits seq clock) turns)
    (ran : execute (nextWaits home) (startWaits seq clock) turns = some w) (id : String) :
    ((w.cluster.members id).replica.gen = w.cluster.coordinator.generationOf (home id) →
      Mirrored w.cluster.coordinator (home id) (w.cluster.members id).replica) ∧
    ∀ first since deadline, (w.cluster.members id).phase = .held w.cluster.incarnation first since deadline →
      (w.cluster.members id).replica.gen ≠ w.cluster.coordinator.generationOf (home id) →
      woken w id first = true ∧ (nextWaits home w (.acts (.pollReturns id))).isSome ∨
        first = true ∧ Unstarted w.cluster.coordinator := by
  have kept : ∀ w turn v, Waiting home w → nextWaits home w turn = some v → Waiting home v := by
    intro w turn v waiting taken
    exact (nextWaits_simulates w turn v waiting taken).2
  have simulated : ∀ w turn v, Waiting home w → nextWaits home w turn = some v →
      Simulates (next home) Waits.cluster w v turn.action := by
    intro w turn v waiting taken
    exact (nextWaits_simulates w turn v waiting taken).1
  have opened := startWaits_waiting home seq clock
  obtain ⟨followed,met⟩ := execute_simulated kept simulated opened promised ran
  obtain ⟨⟨valid,_⟩,level⟩ := runs_level begun met followed
  have waiting := execute_invariant kept opened ran
  have member := level.members id
  refine ⟨member.mirrored valid.coordinator,?_⟩
  intro first since deadline phase differs
  have ready : woken w id first = true → (nextWaits home w (.acts (.pollReturns id))).isSome := by
    intro wakes
    simp [nextWaits,phase,wakes]
  have own := member.phase
  rw [phase] at own
  cases first with
  | true =>
      cases started : w.cluster.coordinator.computed with
      | true => exact .inl ⟨started,ready started⟩
      | false => exact .inr ⟨rfl,waiting.blank started⟩
  | false =>
      obtain ⟨event,named,awaited⟩ := waiting.held id since deadline phase
      rcases awaited with ⟨set,_⟩ | ⟨_,current⟩
      · have wakes : woken w id false = true := by
          unfold woken
          rw [named]
          exact decide_eq_true set
        exact .inl ⟨wakes,ready wakes⟩
      · exact absurd (own.symm.trans current) differs

def oneModel (app : String) : Dict String String := ⟨[("m",app)],by simp⟩

def passOver (app : String) : List Turn :=
  [.acts (.read ((Dict.empty.set "g" ⟨.running,[]⟩).set app ⟨.running,[]⟩)),.acts .look,.acts (.finishPass true)]

def synced (id : String) : List Turn :=
  [.acts (.syncs id),.acts (.askArrives id),.acts (.answers id),.acts (.applies id [])]

def polled (id : String) : List Turn := [.acts (.polls id),.acts (.pollArrives id)]

-- The coordinator restarts under the first replica's poll and publishes again; the
-- second then polls, and its model moves to a new app before the third replica's sync.
def restartedTurns : List Turn :=
  .acts (.route "g" (oneModel "g.m-0123456789")) :: passOver "g.m-0123456789" ++ synced "r" ++ polled "r" ++
    [.acts (.restarts 5000),.acts (.fails "r")] ++ polled "r" ++ passOver "g.m-0123456789" ++ synced "q" ++ polled "q" ++
    [.acts (.route "g" (oneModel "g.m-abcdefabcd"))] ++ passOver "g.m-abcdefabcd" ++ synced "p"

theorem equal_generation_is_equal_table_restarted :
    ∃ w, execute (nextWaits fun _ => "g") (startWaits 0 1000) restartedTurns = some w ∧
      w.cluster.coordinator.generationOf "g" = 5002 ∧ (w.cluster.members "p").replica.gen = 5002 ∧
      Mirrored w.cluster.coordinator "g" (w.cluster.members "p").replica ∧
      (w.cluster.members "p").replica.routed = ["g.m-abcdefabcd"] ∧ (w.cluster.members "q").replica.gen = 5001 ∧
      woken w "q" false = true := by
  have promised : Meets (nextWaits fun _ => "g") (Asked Waits.cluster Turn.action Promised) (startWaits 0 1000) restartedTurns := by
    decide +kernel
  have run : (execute (nextWaits fun _ => "g") (startWaits 0 1000) restartedTurns).map (fun w =>
      (w.cluster.coordinator.generationOf "g",(w.cluster.members "p").replica.gen,(w.cluster.members "p").replica.routed,
        (w.cluster.members "q").replica.gen)) = some (5002,5002,["g.m-abcdefabcd"],5001) := by decide +kernel
  have polls : (execute (nextWaits fun _ => "g") (startWaits 0 1000) restartedTurns).map (fun w =>
      (w.cluster.incarnation,match (w.cluster.members "q").phase with
        | .held number first since deadline => some (number,first,since,deadline)
        | _ => none)) = some (1,some (1,false,5001,30000)) := by decide +kernel
  obtain ⟨w,ran,seen⟩ := Option.map_eq_some_iff.mp run
  simp only [Prod.mk.injEq] at seen
  obtain ⟨current,third,routed,second⟩ := seen
  rw [ran,Option.map_some,Option.some.injEq,Prod.mk.injEq] at polls
  obtain ⟨incarnation,polling⟩ := polls
  have phase : (w.cluster.members "q").phase = .held w.cluster.incarnation false 5001 30000 := by
    rw [incarnation]
    split at polling
    · rename_i held
      cases polling
      exact held
    · cases polling
  have mirrored := (equal_generation_is_equal_table (fun _ => "g") (by decide) promised ran "p").1 (third.trans current.symm)
  have waits := (equal_generation_is_equal_table (fun _ => "g") (by decide) promised ran "q").2 false 5001 30000 phase
    (by rw [second,current]; decide)
  refine ⟨w,ran,current,third,mirrored,routed,second,?_⟩
  rcases waits with ⟨wakes,_⟩ | ⟨early,_⟩
  · exact wakes
  · cases early

end Modelship.Gateway
