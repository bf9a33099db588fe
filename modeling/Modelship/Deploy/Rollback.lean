import Modelship.Deploy.Decisions

namespace Modelship.Deploy.Rollback
open Foundation Modelship.Gateway

section
variable {Raw : Type} (validate : Raw → Option Config) (gateway : String) (fill : Autoscaling → Autoscaling)
variable (current : List Config) (committed : Option (List Raw))

def named : List String := current.map (·.app gateway)

-- The committed apps are in Serve and nobody deletes them.
def Present (serve : Dict String App) : Prop :=
  ∀ config ∈ current, ∃ app, serve.get? (config.app gateway) = some app ∧ app.built = true ∧ app.status ≠ .deleting

-- A model app of the gateway is committed, or is found by its name.
def Ours (name : String) : Prop := name ∈ named gateway current ∨ ∃ model, parseDeploymentName name = some (gateway,model)

def Owned (serve : Dict String App) : Prop :=
  ∀ name, isModelApp gateway name = true → (serve.get? name).isSome → Ours gateway current name

-- What Serve does by itself, and deletes of apps that are not committed.
structure Steady (one two : Dict String App) : Prop where
  keeps : ∀ name ∈ named gateway current, ∀ app, one.get? name = some app → app.status ≠ .deleting →
    ∃ after, two.get? name = some after ∧ (app.built = true → after.built = true) ∧ after.status ≠ .deleting ∧
      after.config = app.config
  fewer : ∀ name, isModelApp gateway name = true → (two.get? name).isSome → (one.get? name).isSome

structure DiffSafe (diff : Diff Raw) : Prop where
  leftovers : ∀ name ∈ diff.leftovers, name ∉ named gateway current
  deploys : ∀ config ∈ diff.deploys, Ours gateway current (config.app gateway)
  retired : diff.commits = false → diff.retired = []

def RoutedBack (s : World Raw) : Prop := s.routing.map Routing.models = some committed

def Cleared (serve : Dict String App) (left : List String) : Prop :=
  ∀ name, isModelApp gateway name = true → (serve.get? name).isSome → name ∈ named gateway current ∨ name ∈ left

-- Serve holds the config's replica-count fields for its app.
def Served (serve : Dict String App) (config : Config) : Prop :=
  ∃ app, serve.get? (config.app gateway) = some app ∧ serveScaling fill app.config.scaling = serveScaling fill config.scaling

def Restored (s : World Raw) (left : List Rescale) : Prop :=
  ∀ config ∈ current, Served gateway fill s.serve config ∨ config.restored gateway ∈ left ∨
    config.app gateway ∈ s.skipped ∨ config.app gateway ∈ s.gaveUp

def Committed (left : List Rescale) : Prop := ∀ rescale ∈ left, ∃ config ∈ current, rescale = config.restored gateway

def PointSafe (s : World Raw) : Point Raw → Prop
  | .diffing | .switching _ | .confirming _ | .committing _ | .resetting => True
  | .clearing diff left => DiffSafe gateway current diff ∧ ∀ name ∈ left, name ∉ named gateway current
  | .rescaling diff _ _ | .settling diff _ _ => DiffSafe gateway current diff
  | .deploying diff left | .rising diff left =>
    DiffSafe gateway current diff ∧ ∀ config ∈ left, Ours gateway current (config.app gateway)
  | .retiring left => ∀ name ∈ left, name ∉ named gateway current
  | .reading => RoutedBack committed s
  | .deleting diff left => RoutedBack committed s ∧ (∀ name ∈ left, name ∉ named gateway current) ∧
    Cleared gateway current s.serve left ∧ Restored gateway fill current s (diff.scaleDowns ++ diff.scaleUps) ∧
    Committed gateway current (diff.scaleDowns ++ diff.scaleUps)
  | .restoring left => RoutedBack committed s ∧ Cleared gateway current s.serve [] ∧ Restored gateway fill current s left ∧
    Committed gateway current left
  | .over => RoutedBack committed s ∧ Cleared gateway current s.serve [] ∧ Restored gateway fill current s []

structure Safe (s : World Raw) : Prop where
  unwritten : s.committed = committed
  present : Present gateway current s.serve
  owned : Owned gateway current s.serve
  routed : ∃ routing, s.routing = some routing ∧ versionApps validate gateway routing.models = some routing.apps
  point : PointSafe gateway fill current committed s s.point

end

section
variable {Raw : Type} {validate : Raw → Option Config} {gateway : String} {fill : Autoscaling → Autoscaling}
variable {current : List Config} {committed : Option (List Raw)} {s t : World Raw}

theorem named_app {config : Config} (member : config ∈ current) : config.app gateway ∈ named gateway current :=
  List.mem_map.mpr ⟨config,member,rfl⟩

theorem named_isModelApp {name : String} (member : name ∈ named gateway current) : isModelApp gateway name = true := by
  obtain ⟨config,_,rfl⟩ := List.mem_map.mp member
  exact app_isModelApp gateway config

theorem Steady.refl (serve : Dict String App) : Steady gateway current serve serve :=
  ⟨fun _ _ app held live => ⟨app,held,id,live,rfl⟩,fun _ _ held => held⟩

theorem Steady.trans {one two three : Dict String App} (first : Steady gateway current one two)
    (second : Steady gateway current two three) : Steady gateway current one three := by
  refine ⟨?_,?_⟩
  · intro name member app held live
    obtain ⟨between,there,built,still,config⟩ := first.keeps name member app held live
    obtain ⟨after,last,alsoBuilt,alive,same⟩ := second.keeps name member between there still
    exact ⟨after,last,fun was => alsoBuilt (built was),alive,same.trans config⟩
  · intro name ours held
    exact first.fewer name ours (second.fewer name ours held)

theorem Steady.sets {serve : Dict String App} {name : String} {app after : App} (held : serve.get? name = some app)
    (built : app.built = true → after.built = true)
    (live : name ∈ named gateway current → app.status ≠ .deleting → after.status ≠ .deleting) (config : after.config = app.config) :
    Steady gateway current serve (serve.set name after) := by
  refine ⟨?_,?_⟩
  · intro other member found there alive
    rw [Dict.get_set]
    split
    case isTrue same =>
      subst same
      rw [held] at there
      cases there
      exact ⟨after,rfl,built,live member alive,config⟩
    case isFalse => exact ⟨found,there,id,alive,rfl⟩
  · intro other _ there
    rw [Dict.get_set] at there
    split at there
    case isTrue same =>
      subst same
      rw [held]
      rfl
    case isFalse => exact there

theorem Steady.others {serve after : Dict String App} {name : String} (foreign : isModelApp gateway name = false)
    (same : ∀ other, other ≠ name → after.get? other = serve.get? other) : Steady gateway current serve after := by
  have apart : ∀ other, isModelApp gateway other = true → other ≠ name := by
    intro other ours equal
    rw [equal,foreign] at ours
    cases ours
  refine ⟨?_,?_⟩
  · intro other member app held live
    exact ⟨app,(same other (apart other (named_isModelApp member))).trans held,id,live,rfl⟩
  · intro other ours held
    rwa [same other (apart other ours)] at held

theorem Steady.erases {serve : Dict String App} {name : String} (gone : (serve.get? name).map (·.status) = some .deleting) :
    Steady gateway current serve (serve.erase name) := by
  refine ⟨?_,?_⟩
  · intro other member app held live
    rw [Dict.get_erase,if_neg]
    · exact ⟨app,held,id,live,rfl⟩
    · intro same
      subst same
      rw [held] at gone
      exact live (Option.some.inj gone)
  · intro other _ held
    rw [Dict.get_erase] at held
    split at held
    · cases held
    · exact held

theorem Steady.deletes (refused : List String) {left : List String} (serve : Dict String App)
    (others : ∀ name ∈ left, name ∉ named gateway current) :
    Steady gateway current serve (left.foldl (deleteOne refused) serve) := by
  induction left generalizing serve with
  | nil => exact Steady.refl serve
  | cons name rest ih =>
      have one : Steady gateway current serve (deleteOne refused serve name) := by
        unfold deleteOne
        split
        · exact Steady.refl serve
        · split
          · exact Steady.refl serve
          · rename_i app held _
            refine Steady.sets held id ?_ rfl
            intro member
            exact absurd member (others name List.mem_cons_self)
      exact one.trans (ih _ (fun later member => others later (List.mem_cons_of_mem _ member)))

theorem Present.steady {one two : Dict String App} (present : Present gateway current one)
    (steady : Steady gateway current one two) : Present gateway current two := by
  intro config member
  obtain ⟨app,held,built,live⟩ := present config member
  obtain ⟨after,there,stays,alive,_⟩ := steady.keeps _ (named_app member) app held live
  exact ⟨after,there,stays built,alive⟩

theorem Owned.steady {one two : Dict String App} (owned : Owned gateway current one)
    (steady : Steady gateway current one two) : Owned gateway current two :=
  fun name ours held => owned name ours (steady.fewer name ours held)

theorem Cleared.steady {one two : Dict String App} {left : List String} (cleared : Cleared gateway current one left)
    (steady : Steady gateway current one two) : Cleared gateway current two left :=
  fun name ours held => cleared name ours (steady.fewer name ours held)

theorem Served.steady {one two : Dict String App} {config : Config} (served : Served gateway fill one config)
    (present : Present gateway current one) (member : config ∈ current) (steady : Steady gateway current one two) :
    Served gateway fill two config := by
  obtain ⟨app,held,same⟩ := served
  obtain ⟨found,there,_,live⟩ := present config member
  rw [held] at there
  cases there
  obtain ⟨after,last,_,_,kept⟩ := steady.keeps _ (named_app member) app held live
  exact ⟨after,last,kept ▸ same⟩

theorem Restored.steady {serve : Dict String App} {left : List Rescale} (restored : Restored gateway fill current s left)
    (present : Present gateway current s.serve) (steady : Steady gateway current s.serve serve) :
    Restored gateway fill current {s with serve} left := by
  intro config member
  rcases restored config member with served | rest
  · exact .inl (served.steady present member steady)
  · exact .inr rest

theorem Safe.steady {serve : Dict String App} (safe : Safe validate gateway fill current committed s)
    (steady : Steady gateway current s.serve serve) : Safe validate gateway fill current committed {s with serve} := by
  refine ⟨safe.unwritten,safe.present.steady steady,safe.owned.steady steady,safe.routed,?_⟩
  have point := safe.point
  dsimp only
  cases at_ : s.point with
  | deleting diff left =>
      rw [at_] at point
      obtain ⟨routed,others,cleared,restored,only⟩ := point
      exact ⟨routed,others,cleared.steady steady,restored.steady safe.present steady,only⟩
  | restoring left =>
      rw [at_] at point
      obtain ⟨routed,cleared,restored,only⟩ := point
      exact ⟨routed,cleared.steady steady,restored.steady safe.present steady,only⟩
  | «over» =>
      rw [at_] at point
      obtain ⟨routed,cleared,restored⟩ := point
      exact ⟨routed,cleared.steady steady,restored.steady safe.present steady⟩
  | _ =>
      rw [at_] at point
      exact point

theorem Safe.moves {point : Point Raw} (safe : Safe validate gateway fill current committed s)
    (sound : PointSafe gateway fill current committed {s with point} point) :
    Safe validate gateway fill current committed {s with point} :=
  ⟨safe.unwritten,safe.present,safe.owned,safe.routed,sound⟩

theorem stillThere_mem {serve : Dict String App} {left : List String} {name : String} :
    name ∈ stillThere serve left ↔ name ∈ left ∧ (serve.get? name).isSome := by
  unfold stillThere
  rw [List.mem_filter]

theorem liveApp_parts {serve : Dict String App} {name : String} {live : App} (found : liveApp serve name = some live) :
    serve.get? name = some live ∧ live.built = true := by
  unfold liveApp at found
  obtain ⟨held,built⟩ := Option.filter_eq_some_iff.mp found
  exact ⟨held,built⟩

theorem Present.sets {serve : Dict String App} {name : String} {app : App} (present : Present gateway current serve)
    (built : name ∈ named gateway current → app.built = true) (live : app.status ≠ .deleting) :
    Present gateway current (serve.set name app) := by
  intro config member
  rw [Dict.get_set]
  split
  case isTrue same => exact ⟨app,rfl,built (same ▸ named_app member),live⟩
  case isFalse => exact present config member

theorem Owned.sets {serve : Dict String App} {name : String} (owned : Owned gateway current serve) (app : App)
    (ours : isModelApp gateway name = true → Ours gateway current name) : Owned gateway current (serve.set name app) := by
  intro other model held
  rw [Dict.get_set] at held
  split at held
  case isTrue same => exact same ▸ ours (same ▸ model)
  case isFalse => exact owned other model held

theorem Present.rescales {serve : Dict String App} {name : String} {live : App} (present : Present gateway current serve)
    (found : liveApp serve name = some live) (scaling : Scaling) :
    Present gateway current (rescaleApp serve name scaling live) :=
  present.sets (fun _ => (liveApp_parts found).2) (by simp)

theorem Owned.rescales {serve : Dict String App} {name : String} {live : App} (owned : Owned gateway current serve)
    (found : liveApp serve name = some live) (scaling : Scaling) :
    Owned gateway current (rescaleApp serve name scaling live) := by
  apply owned.sets
  intro model
  exact owned name model (by rw [(liveApp_parts found).1]; rfl)

theorem Present.submits {serve : Dict String App} (present : Present gateway current serve) (config : Config) :
    Present gateway current (submitApp gateway serve config) := by
  apply present.sets
  · intro member
    obtain ⟨committed,there,same⟩ := List.mem_map.mp member
    obtain ⟨app,held,built,_⟩ := present committed there
    rw [← same,held]
    exact built
  · simp

theorem Owned.submits {serve : Dict String App} {config : Config} (owned : Owned gateway current serve)
    (ours : Ours gateway current (config.app gateway)) : Owned gateway current (submitApp gateway serve config) :=
  owned.sets _ (fun _ => ours)

theorem Safe.submits {config : Config} (safe : Safe validate gateway fill current committed s) (refused : Bool)
    (ours : Ours gateway current (config.app gateway)) (working : s.point.rollsBack = false) :
    Safe validate gateway fill current committed
      {s with serve := if refused then s.serve else submitApp gateway s.serve config} := by
  have point : ∀ serve, PointSafe gateway fill current committed {s with serve} s.point := by
    intro serve
    have before := safe.point
    cases at_ : s.point with
    | deleting diff left => simp [at_,Point.rollsBack] at working
    | restoring left => simp [at_,Point.rollsBack] at working
    | «over» => simp [at_,Point.rollsBack] at working
    | _ =>
        rw [at_] at before
        exact before
  cases refused with
  | true => exact safe
  | false =>
      exact ⟨safe.unwritten,safe.present.submits config,safe.owned.submits ours,safe.routed,point _⟩

theorem route_parts {models : Option (List Raw)} (routed : s.route validate gateway models = some t) :
    ∃ apps, versionApps validate gateway models = some apps ∧
      t = {s with seq := s.seq + 1,routing := some ⟨s.seq + 1,models,apps⟩} := by
  obtain ⟨apps,valid,same⟩ := Option.map_eq_some_iff.mp routed
  exact ⟨apps,valid,same.symm⟩

theorem Safe.routes {models : Option (List Raw)} {point : Point Raw} (safe : Safe validate gateway fill current committed s)
    (routed : s.route validate gateway models = some t)
    (sound : PointSafe gateway fill current committed {t with point} point) :
    Safe validate gateway fill current committed {t with point} := by
  obtain ⟨apps,valid,rfl⟩ := route_parts routed
  exact ⟨safe.unwritten,safe.present,safe.owned,⟨_,rfl,valid⟩,sound⟩

theorem serveApps_get (fill : Autoscaling → Autoscaling) (serve : Dict String App) (name : String) :
    (serveApps fill serve).get? name = (serve.get? name).map fun app =>
      ⟨app.status,if app.built then some (serveScaling fill app.config.scaling) else none⟩ :=
  Dict.get_mapValues _ serve name

theorem serveApps_keys (fill : Autoscaling → Autoscaling) (serve : Dict String App) :
    (serveApps fill serve).entries.map Prod.fst = serve.entries.map Prod.fst := by
  simp [serveApps,Dict.mapValues,Function.comp_def]

-- Serve as a rollback needs it while it restores.
structure Standing (gateway : String) (current : List Config) (serve : Dict String App) : Prop where
  present : Present gateway current serve
  owned : Owned gateway current serve
  cleared : Cleared gateway current serve []

theorem Standing.rescales {serve : Dict String App} {name : String} {live : App} (standing : Standing gateway current serve)
    (found : liveApp serve name = some live) (scaling : Scaling) :
    Standing gateway current (rescaleApp serve name scaling live) := by
  refine ⟨standing.present.rescales found scaling,standing.owned.rescales found scaling,?_⟩
  intro other ours held
  unfold rescaleApp at held
  rw [Dict.get_set] at held
  split at held
  case isTrue same =>
    subst same
    exact standing.cleared name ours (by rw [(liveApp_parts found).1]; rfl)
  case isFalse => exact standing.cleared other ours held

theorem committed_unique (once : (current.map Config.name).Nodup) {one two : Config} (first : one ∈ current)
    (second : two ∈ current) (same : one.app gateway = two.app gateway) : one = two :=
  List.inj_on_of_nodup_map once first second (app_name same)

-- One app's turn: served, given up, or tried again; the others keep what they have.
theorem restoreOne_parts (fill : Autoscaling → Autoscaling) (once : (current.map Config.name).Nodup) (refused tired : List String) {serve : Dict String App}
    (gaveUp : List String) {config : Config} (member : config ∈ current) (standing : Standing gateway current serve) :
    Standing gateway current (restoreOne refused tired serve gaveUp (config.restored gateway)).1 ∧
    (∀ other ∈ current, Served gateway fill serve other →
      Served gateway fill (restoreOne refused tired serve gaveUp (config.restored gateway)).1 other) ∧
    gaveUp ⊆ (restoreOne refused tired serve gaveUp (config.restored gateway)).2.1 ∧
    (Served gateway fill (restoreOne refused tired serve gaveUp (config.restored gateway)).1 config ∨
      (restoreOne refused tired serve gaveUp (config.restored gateway)).2.2 = true ∨
      config.app gateway ∈ (restoreOne refused tired serve gaveUp (config.restored gateway)).2.1) := by
  obtain ⟨app,held,built,_⟩ := standing.present config member
  have live : liveApp serve (config.restored gateway).app = some app := by
    unfold liveApp
    rw [show (config.restored gateway).app = config.app gateway from rfl,held,Option.filter_some,if_pos built]
  unfold restoreOne
  rw [live]
  dsimp only
  split
  · refine ⟨standing.rescales live _,?_,List.Subset.refl _,.inl ⟨_,by unfold rescaleApp; exact Dict.get_set_self _ _ _,rfl⟩⟩
    intro other there served
    unfold rescaleApp Served
    rw [Dict.get_set]
    split
    case isTrue same =>
      have equal : config = other := committed_unique once member there same
      subst equal
      exact ⟨_,rfl,rfl⟩
    case isFalse => exact served
  · split
    · exact ⟨standing,fun _ _ served => served,List.subset_append_left _ _,.inr (.inr (List.mem_append_right _ List.mem_cons_self))⟩
    · exact ⟨standing,fun _ _ served => served,List.Subset.refl _,.inr (.inl rfl)⟩

theorem restoreAll_parts (fill : Autoscaling → Autoscaling) (once : (current.map Config.name).Nodup) (refused tired : List String) {serve : Dict String App}
    (gaveUp : List String) {left : List Rescale} (standing : Standing gateway current serve)
    (only : Committed gateway current left) :
    Standing gateway current (restoreAll refused tired serve gaveUp left).1 ∧
    (∀ config ∈ current, Served gateway fill serve config ∨ config.restored gateway ∈ left ∨ config.app gateway ∈ gaveUp →
      Served gateway fill (restoreAll refused tired serve gaveUp left).1 config ∨
      config.restored gateway ∈ (restoreAll refused tired serve gaveUp left).2.2 ∨
      config.app gateway ∈ (restoreAll refused tired serve gaveUp left).2.1) ∧
    (restoreAll refused tired serve gaveUp left).2.2 ⊆ left := by
  induction left generalizing serve gaveUp with
  | nil => exact ⟨standing,fun _ _ known => known,List.Subset.refl _⟩
  | cons rescale rest ih =>
      obtain ⟨config,member,rfl⟩ := only rescale List.mem_cons_self
      obtain ⟨after,kept,grown,result⟩ := restoreOne_parts fill once refused tired gaveUp member standing
      obtain ⟨last,known,fewer⟩ := ih (restoreOne refused tired serve gaveUp (config.restored gateway)).2.1 after
        (fun later there => only later (List.mem_cons_of_mem _ there))
      have added : ∀ other, other ∈ (restoreAll refused tired (restoreOne refused tired serve gaveUp (config.restored gateway)).1
          (restoreOne refused tired serve gaveUp (config.restored gateway)).2.1 rest).2.2 →
          other ∈ (restoreAll refused tired serve gaveUp (config.restored gateway :: rest)).2.2 := by
        intro other there
        unfold restoreAll
        dsimp only
        split
        · exact List.mem_cons_of_mem _ there
        · exact there
      refine ⟨last,?_,?_⟩
      · intro other there before
        have settled : Served gateway fill (restoreOne refused tired serve gaveUp (config.restored gateway)).1 other ∨
            other.restored gateway ∈ rest ∨
            other.app gateway ∈ (restoreOne refused tired serve gaveUp (config.restored gateway)).2.1 ∨
            other = config ∧ (restoreOne refused tired serve gaveUp (config.restored gateway)).2.2 = true := by
          rcases before with served | listed | tiredOf
          · exact .inl (kept other there served)
          · rcases List.mem_cons.mp listed with here | later
            · have same : other = config := committed_unique once there member (congrArg Rescale.app here)
              subst same
              rcases result with served | again | gave
              · exact .inl served
              · exact .inr (.inr (.inr ⟨rfl,again⟩))
              · exact .inr (.inr (.inl gave))
            · exact .inr (.inl later)
          · exact .inr (.inr (.inl (grown tiredOf)))
        rcases settled with served | later | gave | ⟨rfl,again⟩
        · exact (known other there (.inl served)).imp id (.imp (added _) id)
        · exact (known other there (.inr (.inl later))).imp id (.imp (added _) id)
        · exact (known other there (.inr (.inr gave))).imp id (.imp (added _) id)
        · refine .inr (.inl ?_)
          unfold restoreAll
          dsimp only
          rw [if_pos again]
          exact List.mem_cons_self
      · intro other there
        unfold restoreAll at there
        dsimp only at there
        split at there
        · rcases List.mem_cons.mp there with rfl | later
          · exact List.mem_cons_self
          · exact List.mem_cons_of_mem _ (fewer later)
        · exact List.mem_cons_of_mem _ (fewer there)

-- The names a request may give its models.
def NamesFit (validate : Raw → Option Config) (request : Request Raw) : Prop :=
  ∀ config, Asked validate request config → config.name ≠ "" ∧ '\n' ∉ config.name.toList

structure Setting (validate : Raw → Option Config) (gateway : String) (current : List Config) (committed : Option (List Raw))
    (request : Request Raw) : Prop where
  gatewayNamed : gateway ≠ ""
  undotted : '.' ∉ gateway.toList
  names : NamesFit validate request
  current : currentConfigs validate committed = some current

variable {request : Request Raw}

theorem Setting.diffs {apps : Dict String HeldApp} {diff : Diff Raw} (setting : Setting validate gateway current committed request)
    (built : buildDiff validate gateway fill request committed apps = some diff) : DiffSafe gateway current diff := by
  obtain ⟨leftovers,deploys,retired⟩ := buildDiff_parts setting.current built
  refine ⟨?_,?_,retired⟩
  · intro name member
    exact ((leftovers name).mp member).2.2
  · intro config member
    rcases deploys config member with known | asked
    · exact .inl (named_app known)
    · obtain ⟨name,line⟩ := setting.names config asked
      exact .inr ⟨config.name,parse_deploymentName setting.gatewayNamed setting.undotted name line config.printed⟩

theorem proceed_safe {point after : Point Raw} (safe : PointSafe gateway fill current committed s point)
    (done : proceed point = some after) : PointSafe gateway fill current committed {s with point := after} after := by
  unfold proceed at done
  split at done
  · cases done
    exact safe
  · cases done
    exact ⟨safe,safe.deploys⟩
  · cases done
    exact ⟨safe.1,safe.1.deploys⟩
  · cases done
    exact safe.1
  · split at done
    · obtain ⟨models,_,rfl⟩ := Option.map_eq_some_iff.mp done
      trivial
    · rename_i quiet
      cases done
      have nothing := DiffSafe.retired safe (Bool.eq_false_iff.mpr quiet)
      intro name member
      rw [nothing] at member
      cases member
  · cases done

theorem poll_safe {serve : Dict String App} {point after : Point Raw} (safe : PointSafe gateway fill current committed s point)
    (done : poll gateway serve point = some after) : PointSafe gateway fill current committed {s with point := after} after := by
  unfold poll at done
  split at done
  · cases done
    exact safe
  · cases done
    refine ⟨safe.1,?_⟩
    intro config member
    exact safe.2 config (List.mem_filter.mp member).1
  · cases done

-- The rollback reads Serve: what is not committed will be deleted, and what is is served,
-- will be rescaled, or is not live.
theorem Safe.reads {diff : Diff Raw} (setting : Setting validate gateway current committed request)
    (safe : Safe validate gateway fill current committed s) (reading : s.point = .reading)
    (built : rollbackDiff validate gateway fill s.committed (serveApps fill s.serve) = some diff) :
    Safe validate gateway fill current committed
      {s with point := .deleting diff diff.leftovers,skipped := diff.deploys.map (·.app gateway)} := by
  rw [safe.unwritten] at built
  obtain ⟨leftovers,_,_⟩ := buildDiff_parts setting.current built
  obtain ⟨same,found,told,_,only⟩ := rollbackDiff_parts gateway fill (serveApps fill s.serve) setting.current
  rw [built] at found
  cases found
  have routed : RoutedBack committed s := by
    have point := safe.point
    rwa [reading] at point
  refine ⟨safe.unwritten,safe.present,safe.owned,safe.routed,routed,?_,?_,?_,only⟩
  · intro name member
    exact ((leftovers name).mp member).2.2
  · intro name ours held
    by_cases known : name ∈ named gateway current
    · exact .inl known
    · have parsed := (safe.owned name ours held).resolve_left known
      refine .inr ((leftovers name).mpr ⟨?_,parsed,known⟩)
      rw [serveApps_keys]
      exact Dict.get_isSome.mp held
  · intro config member
    rcases told config member with deployed | rescaled | ⟨view,held,scaling⟩
    · exact .inr (.inr (.inl (List.mem_map.mpr ⟨config,deployed,rfl⟩)))
    · exact .inr (.inl rescaled)
    · obtain ⟨app,there,built,_⟩ := safe.present config member
      rw [serveApps_get,there,Option.map_some,if_pos built] at held
      cases held
      exact .inl ⟨app,there,Option.some.inj scaling⟩

theorem Safe.deletes {diff : Diff Raw} {left : List String} (refused : List String)
    (safe : Safe validate gateway fill current committed s) (deleting : s.point = .deleting diff left) :
    (stillThere s.serve left = [] →
      Safe validate gateway fill current committed {s with point := .restoring (diff.scaleDowns ++ diff.scaleUps)}) ∧
    Safe validate gateway fill current committed {s with
      serve := (stillThere s.serve left).foldl (deleteOne refused) s.serve
      point := .deleting diff (stillThere s.serve left)} := by
  have point := safe.point
  rw [deleting] at point
  obtain ⟨routed,others,cleared,restored,only⟩ := point
  have still : Cleared gateway current s.serve (stillThere s.serve left) := by
    intro name ours held
    exact (cleared name ours held).imp id (fun member => stillThere_mem.mpr ⟨member,held⟩)
  have fewer : ∀ name ∈ stillThere s.serve left, name ∉ named gateway current :=
    fun name member => others name (stillThere_mem.mp member).1
  refine ⟨?_,?_⟩
  · intro gone
    rw [gone] at still
    exact safe.moves ⟨routed,still,restored,only⟩
  · have moved : Safe validate gateway fill current committed {s with point := .deleting diff (stillThere s.serve left)} :=
      safe.moves ⟨routed,fewer,still,restored,only⟩
    exact moved.steady (Steady.deletes refused s.serve fewer)

theorem Safe.restores {left : List Rescale} (refused tired : List String)
    (setting : Setting validate gateway current committed request) (safe : Safe validate gateway fill current committed s)
    (restoring : s.point = .restoring left) :
    Safe validate gateway fill current committed {s with
      serve := (restoreAll refused tired s.serve s.gaveUp left).1
      gaveUp := (restoreAll refused tired s.serve s.gaveUp left).2.1
      point := if (restoreAll refused tired s.serve s.gaveUp left).2.2 = [] then .over
        else .restoring (restoreAll refused tired s.serve s.gaveUp left).2.2} := by
  have point := safe.point
  rw [restoring] at point
  obtain ⟨routed,cleared,restored,only⟩ := point
  have once := (currentConfigs_parts setting.current).2
  obtain ⟨after,known,fewer⟩ := restoreAll_parts fill once refused tired s.gaveUp ⟨safe.present,safe.owned,cleared⟩ only
  generalize restoreAll refused tired s.serve s.gaveUp left = result at after known fewer ⊢
  have settled : ∀ config ∈ current, Served gateway fill result.1 config ∨ config.restored gateway ∈ result.2.2 ∨
      config.app gateway ∈ s.skipped ∨ config.app gateway ∈ result.2.1 := by
    intro config member
    have goes := known config member
    rcases restored config member with served | listed | skipped | gave
    · exact (goes (.inl served)).imp_right (Or.imp_right .inr)
    · exact (goes (.inr (.inl listed))).imp_right (Or.imp_right .inr)
    · exact .inr (.inr (.inl skipped))
    · exact (goes (.inr (.inr gave))).imp_right (Or.imp_right .inr)
  refine ⟨safe.unwritten,after.present,after.owned,safe.routed,?_⟩
  dsimp only
  split
  case isTrue none_ =>
    rw [none_] at settled
    exact ⟨routed,after.cleared,settled⟩
  case isFalse =>
    exact ⟨routed,after.cleared,settled,fun rescale member => only rescale (fewer member)⟩

-- The rollback reads Serve while it holds the app as failed: its diff would deploy the app
-- anew, which a rollback does not do.
def ReadsFailed (name : String) (s : World Raw) (action : Action) : Prop :=
  action = .reads ∧ ∃ app, s.serve.get? name = some app ∧ app.status = .deployFailed

-- Serve refuses the app's re-submit after the rollback's time is up.
def GivesUp (name : String) (s : World Raw) (action : Action) : Prop :=
  ∃ refused tired left, action = .restores refused tired ∧ s.point = .restoring left ∧ name ∈ left.map Rescale.app ∧
    name ∈ refused ∧ name ∈ tired

theorem restoreOne_gaveUp {refused tired gaveUp : List String} {serve : Dict String App} {rescale : Rescale} {name : String}
    (gone : name ∈ (restoreOne refused tired serve gaveUp rescale).2.1) :
    name ∈ gaveUp ∨ name = rescale.app ∧ name ∈ refused ∧ name ∈ tired := by
  unfold restoreOne at gone
  split at gone
  · exact .inl gone
  · split at gone
    · exact .inl gone
    · rename_i refusal
      split at gone
      · rename_i late
        rcases List.mem_append.mp gone with before | new
        · exact .inl before
        · rw [List.mem_singleton.mp new]
          exact .inr ⟨rfl,not_not.mp refusal,late⟩
      · exact .inl gone

theorem restoreAll_gaveUp {refused tired gaveUp : List String} {serve : Dict String App} {left : List Rescale} {name : String}
    (gone : name ∈ (restoreAll refused tired serve gaveUp left).2.1) :
    name ∈ gaveUp ∨ name ∈ left.map Rescale.app ∧ name ∈ refused ∧ name ∈ tired := by
  induction left generalizing serve gaveUp with
  | nil => exact .inl gone
  | cons rescale rest ih =>
      rcases ih gone with one | ⟨later,late⟩
      · rcases restoreOne_gaveUp one with before | ⟨rfl,late⟩
        · exact .inl before
        · exact .inr ⟨List.mem_cons_self,late⟩
      · exact .inr ⟨List.mem_cons_of_mem _ later,late⟩

theorem Safe.skips {diff : Diff Raw} (setting : Setting validate gateway current committed request)
    (safe : Safe validate gateway fill current committed s)
    (built : rollbackDiff validate gateway fill s.committed (serveApps fill s.serve) = some diff) :
    ∀ name ∈ diff.deploys.map (·.app gateway), ∃ app, s.serve.get? name = some app ∧ app.status = .deployFailed := by
  rw [safe.unwritten] at built
  obtain ⟨same,found,_,lost,_⟩ := rollbackDiff_parts gateway fill (serveApps fill s.serve) setting.current
  rw [built] at found
  cases found
  intro name member
  obtain ⟨config,deployed,rfl⟩ := List.mem_map.mp member
  obtain ⟨known,dead⟩ := lost config deployed
  obtain ⟨app,held,_,live⟩ := safe.present config known
  have status := dead ⟨app.status,_⟩ (by rw [serveApps_get,held]; rfl)
  exact ⟨app,held,by simpa [notLive,live] using status⟩

-- Before a request: the gateway's model apps are the committed version's, each live with
-- its replica-count fields, and the gateway is routed by it.
structure Settled (validate : Raw → Option Config) (gateway : String) (fill : Autoscaling → Autoscaling) (current : List Config)
    (s : World Raw) : Prop where
  apps : ∀ name, isModelApp gateway name = true → ((s.serve.get? name).isSome ↔ name ∈ named gateway current)
  live : ∀ config ∈ current, ∃ app, s.serve.get? (config.app gateway) = some app ∧ app.built = true ∧
    notLive app.status = false ∧ serveScaling fill app.config.scaling = serveScaling fill config.scaling
  routed : ∃ seq table, s.routing = some ⟨seq,s.committed,table⟩ ∧ versionApps validate gateway s.committed = some table
  point : s.point = .diffing
  skipped : s.skipped = []
  gaveUp : s.gaveUp = []

theorem live_status {status : ApplicationStatus} (live : notLive status = false) : status ≠ .deployFailed ∧ status ≠ .deleting := by
  simpa [notLive] using live

theorem Settled.safe (settled : Settled validate gateway fill current s) :
    Safe validate gateway fill current s.committed s := by
  obtain ⟨seq,table,routing,valid⟩ := settled.routed
  refine ⟨rfl,?_,?_,⟨_,routing,valid⟩,?_⟩
  · intro config member
    obtain ⟨app,held,built,live,_⟩ := settled.live config member
    exact ⟨app,held,built,(live_status live).2⟩
  · intro name ours held
    exact .inl ((settled.apps name ours).mp held)
  · rw [settled.point]
    trivial

variable [DecidableEq Raw]

theorem next_safe {action : Action} (setting : Setting validate gateway current committed request)
    (safe : Safe validate gateway fill current committed s)
    (taken : next validate gateway fill request s action = some t) : Safe validate gateway fill current committed t := by
  have point := safe.point
  have fewer : ∀ left : List String, (∀ name ∈ left, name ∉ named gateway current) →
      ∀ name ∈ stillThere s.serve left, name ∉ named gateway current :=
    fun left others name member => others name (stillThere_mem.mp member).1
  cases next_goes taken with
  | drifts name status app held live =>
      rw [not_or] at live
      exact safe.steady (Steady.sets held id (fun _ _ => live.2) rfl)
  | builds name app held => exact safe.steady (Steady.sets held (fun _ => rfl) (fun _ live => live) rfl)
  | gone name deleting => exact safe.steady (Steady.erases deleting)
  | appears name app foreign =>
      refine safe.steady (Steady.others foreign ?_)
      intro other apart
      rw [Dict.get_set,if_neg (Ne.symm apart)]
  | vanishes name foreign =>
      refine safe.steady (Steady.others foreign ?_)
      intro other apart
      rw [Dict.get_erase,if_neg (Ne.symm apart)]
  | diffs diff diffing built =>
      rw [safe.unwritten] at built
      have sound := setting.diffs built
      exact safe.moves ⟨sound,sound.leftovers⟩
  | cleared refused diff left clearing gone =>
      rw [clearing] at point
      exact safe.moves point.1
  | clears refused diff left clearing =>
      rw [clearing] at point
      have others := fewer left point.2
      have moved : Safe validate gateway fill current committed {s with point := .clearing diff (stillThere s.serve left)} :=
        safe.moves ⟨point.1,others⟩
      exact moved.steady (Steady.deletes refused s.serve others)
  | retires refused left retiring =>
      rw [retiring] at point
      have others := fewer left point
      have moved : Safe validate gateway fill current committed {s with point := .retiring (stillThere s.serve left)} :=
        safe.moves others
      exact moved.steady (Steady.deletes refused s.serve others)
  | stumbles refused diff up rescale rest rescaling => exact safe.moves trivial
  | rescales diff up rescale rest live rescaling found =>
      rw [rescaling] at point
      exact ⟨safe.unwritten,safe.present.rescales found rescale.scaling,safe.owned.rescales found rescale.scaling,
        safe.routed,point⟩
  | submits refused diff config rest deploying =>
      rw [deploying] at point
      have submitted := safe.submits refused (point.2 config List.mem_cons_self) (by rw [deploying]; rfl)
      exact submitted.moves ⟨point.1,fun later member => point.2 later (List.mem_cons_of_mem _ member)⟩
  | resubmits index refused diff pending config rising found =>
      rw [rising] at point
      exact safe.submits refused (point.2 config (List.mem_of_getElem? found)) (by rw [rising]; rfl)
  | polls after polled => exact safe.moves (poll_safe point polled)
  | proceeds after done => exact safe.moves (proceed_safe point done)
  | switches models after switching routed => exact safe.routes routed trivial
  | confirms models confirming => exact safe.moves trivial
  | stops working => exact safe.moves trivial
  | stands resetting same =>
      have back : RoutedBack committed s := safe.unwritten ▸ same
      exact safe.moves back
  | resets after resetting routed =>
      refine safe.routes routed ?_
      obtain ⟨apps,_,rfl⟩ := route_parts routed
      exact congrArg some safe.unwritten
  | reads diff reading built => exact safe.reads setting reading built
  | deleted refused diff left deleting gone => exact (safe.deletes refused deleting).1 gone
  | deletes refused diff left deleting => exact (safe.deletes refused deleting).2
  | restores refused tired left restoring => exact safe.restores refused tired setting restoring

theorem next_skips {action : Action} {name : String} (setting : Setting validate gateway current committed request)
    (safe : Safe validate gateway fill current committed s) (taken : next validate gateway fill request s action = some t)
    (skipped : name ∈ t.skipped) : name ∈ s.skipped ∨ ReadsFailed name s action := by
  cases next_goes taken with
  | reads diff reading built => exact .inr ⟨rfl,safe.skips setting built name skipped⟩
  | switches models after switching routed =>
      obtain ⟨apps,_,rfl⟩ := route_parts routed
      exact .inl skipped
  | resets after resetting routed =>
      obtain ⟨apps,_,rfl⟩ := route_parts routed
      exact .inl skipped
  | _ => exact .inl skipped

theorem next_givesUp {action : Action} {name : String} (taken : next validate gateway fill request s action = some t)
    (gone : name ∈ t.gaveUp) : name ∈ s.gaveUp ∨ GivesUp name s action := by
  cases next_goes taken with
  | restores refused tired left restoring =>
      exact (restoreAll_gaveUp gone).imp_right fun late => ⟨refused,tired,left,rfl,restoring,late⟩
  | switches models after switching routed =>
      obtain ⟨apps,_,rfl⟩ := route_parts routed
      exact .inl gone
  | resets after resetting routed =>
      obtain ⟨apps,_,rfl⟩ := route_parts routed
      exact .inl gone
  | _ => exact .inl gone

theorem runs_safe {actions : List Action} (setting : Setting validate gateway current s.committed request)
    (settled : Settled validate gateway fill current s)
    (ran : execute (next validate gateway fill request) s actions = some t) : Safe validate gateway fill current s.committed t := by
  have begun := settled.safe
  generalize s.committed = committed at setting begun ⊢
  exact execute_invariant (fun _ _ _ safe taken => next_safe setting safe taken) begun ran

-- What was not so before the request is a step's doing.
theorem runs_blame {Mark : World Raw → Prop} {Cause : World Raw → Action → Prop} {actions : List Action}
    (setting : Setting validate gateway current s.committed request) (settled : Settled validate gateway fill current s)
    (blames : ∀ u action v, Safe validate gateway fill current s.committed u →
      next validate gateway fill request u action = some v → Mark v → Mark u ∨ Cause u action)
    (fresh : ¬Mark s) (ran : execute (next validate gateway fill request) s actions = some t) (marked : Mark t) :
    Happened (next validate gateway fill request) s actions Cause := by
  have begun := settled.safe
  generalize s.committed = committed at setting begun blames
  exact (execute_blames (fun _ _ _ safe taken => next_safe setting safe taken) blames begun ran marked).resolve_left fresh

theorem runs_skips {actions : List Action} {name : String} (setting : Setting validate gateway current s.committed request)
    (settled : Settled validate gateway fill current s)
    (ran : execute (next validate gateway fill request) s actions = some t) (skipped : name ∈ t.skipped) :
    Happened (next validate gateway fill request) s actions (ReadsFailed name) := by
  have fresh : name ∉ s.skipped := by
    rw [settled.skipped]
    exact List.not_mem_nil
  exact runs_blame setting settled (fun _ _ _ safe taken => next_skips setting safe taken) fresh ran skipped

theorem runs_givesUp {actions : List Action} {name : String} (setting : Setting validate gateway current s.committed request)
    (settled : Settled validate gateway fill current s)
    (ran : execute (next validate gateway fill request) s actions = some t) (gone : name ∈ t.gaveUp) :
    Happened (next validate gateway fill request) s actions (GivesUp name) := by
  have fresh : name ∉ s.gaveUp := by
    rw [settled.gaveUp]
    exact List.not_mem_nil
  exact runs_blame setting settled (fun _ _ _ _ taken => next_givesUp taken) fresh ran gone

-- A rollback that Serve goes along with comes to its end.
def Ends (validate : Raw → Option Config) (gateway : String) (fill : Autoscaling → Autoscaling) (request : Request Raw)
    (s : World Raw) : Prop :=
  ∃ actions t, execute (next validate gateway fill request) s actions = some t ∧ t.point = .over

theorem Ends.after {action : Action} (taken : next validate gateway fill request s action = some t)
    (ends : Ends validate gateway fill request t) : Ends validate gateway fill request s := by
  obtain ⟨actions,last,ran,ended⟩ := ends
  exact ⟨action :: actions,last,execute_cons.mpr ⟨t,taken,ran⟩,ended⟩

theorem restoring_ends {left : List Rescale} (restoring : s.point = .restoring left) :
    Ends validate gateway fill request s := by
  have accepted : ∀ (left : List Rescale) (serve : Dict String App) (gaveUp : List String),
      (restoreAll [] [] serve gaveUp left).2.2 = [] := by
    intro left
    induction left with
    | nil => intro serve gaveUp; rfl
    | cons rescale rest ih =>
        intro serve gaveUp
        have once : (restoreOne [] [] serve gaveUp rescale).2.2 = false := by
          unfold restoreOne
          split <;> simp
        unfold restoreAll
        dsimp only
        rw [once,ih]
        rfl
  have taken : next validate gateway fill request s (.restores [] []) = some {s with
      serve := (restoreAll [] [] s.serve s.gaveUp left).1
      gaveUp := (restoreAll [] [] s.serve s.gaveUp left).2.1
      point := .over} := by
    simp only [next,restoring,accepted,if_true]
  exact Ends.after taken ⟨[],_,rfl,rfl⟩

theorem stillThere_erase (serve : Dict String App) (left : List String) (name : String) :
    stillThere (serve.erase name) left = (stillThere serve left).filter (· ≠ name) := by
  unfold stillThere
  rw [List.filter_filter]
  apply List.filter_congr
  intro other _
  rw [Dict.get_erase]
  by_cases same : name = other
  · simp [same]
  · simp [same,Ne.symm same]

theorem deleteOne_status {serve : Dict String App} {name other : String} {app : App}
    (held : (deleteOne [] serve name).get? other = some app) :
    app.status = .deleting ∨ other ≠ name ∧ serve.get? other = some app := by
  unfold deleteOne at held
  split at held
  case h_1 missing =>
    refine .inr ⟨?_,held⟩
    intro same
    rw [same,missing] at held
    cases held
  case h_2 found there =>
    rw [if_neg List.not_mem_nil,Dict.get_set] at held
    split at held
    · cases held
      exact .inl rfl
    · rename_i apart
      exact .inr ⟨Ne.symm apart,held⟩

theorem deleted_status {left : List String} {serve : Dict String App} {name : String} {app : App}
    (held : (left.foldl (deleteOne []) serve).get? name = some app) :
    app.status = .deleting ∨ name ∉ left ∧ serve.get? name = some app := by
  induction left generalizing serve with
  | nil => exact .inr ⟨List.not_mem_nil,held⟩
  | cons first rest ih =>
      rcases ih held with gone | ⟨later,there⟩
      · exact .inl gone
      · rcases deleteOne_status there with gone | ⟨apart,before⟩
        · exact .inl gone
        · refine .inr ⟨?_,before⟩
          rw [List.mem_cons,not_or]
          exact ⟨apart,later⟩

-- Serve removes the deleted apps one by one.
theorem deleting_ends {diff : Diff Raw} {left : List String} (count : Nat) (deleting : s.point = .deleting diff left)
    (few : (stillThere s.serve left).length ≤ count)
    (gone : ∀ name ∈ left, ∀ app, s.serve.get? name = some app → app.status = .deleting) :
    Ends validate gateway fill request s := by
  induction count generalizing s with
  | zero =>
      have none_ : stillThere s.serve left = [] := List.eq_nil_of_length_eq_zero (Nat.le_zero.mp few)
      have taken : next validate gateway fill request s (.deletes []) =
          some {s with point := .restoring (diff.scaleDowns ++ diff.scaleUps)} := by
        simp only [next,deleting,none_,if_true]
      exact Ends.after taken (restoring_ends rfl)
  | succ count ih =>
      cases there : stillThere s.serve left with
      | nil =>
          refine ih deleting ?_ gone
          rw [there]
          exact Nat.zero_le _
      | cons name rest =>
          have member : name ∈ stillThere s.serve left := there ▸ List.mem_cons_self
          obtain ⟨listed,present⟩ := stillThere_mem.mp member
          obtain ⟨app,held⟩ := Option.isSome_iff_exists.mp present
          have taken : next validate gateway fill request s (.gone name) = some {s with serve := s.serve.erase name} := by
            simp only [next,held,Option.map_some,gone name listed app held,if_true]
          refine Ends.after taken (ih deleting ?_ ?_)
          · dsimp only
            rw [stillThere_erase]
            have shorter := (List.length_filter_lt_length_iff_exists (p := (· ≠ name)) (l := stillThere s.serve left)).mpr
              ⟨name,member,by simp⟩
            omega
          · intro other member found still
            dsimp only at still
            rw [Dict.get_erase] at still
            split at still
            · cases still
            · exact gone other member found still

theorem deletes_end {diff : Diff Raw} {left : List String} (deleting : s.point = .deleting diff left) :
    Ends validate gateway fill request s := by
  by_cases none_ : stillThere s.serve left = []
  · have taken : next validate gateway fill request s (.deletes []) =
        some {s with point := .restoring (diff.scaleDowns ++ diff.scaleUps)} := by
      simp only [next,deleting,none_,if_true]
    exact Ends.after taken (restoring_ends rfl)
  · have taken : next validate gateway fill request s (.deletes []) = some {s with
        serve := (stillThere s.serve left).foldl (deleteOne []) s.serve
        point := .deleting diff (stillThere s.serve left)} := by
      simp only [next,deleting,if_neg none_]
    refine Ends.after taken (deleting_ends _ rfl (le_refl _) ?_)
    intro name member app held
    exact (deleted_status held).resolve_right (fun other => other.1 member)

theorem reading_ends (setting : Setting validate gateway current committed request)
    (safe : Safe validate gateway fill current committed s) (reading : s.point = .reading) :
    Ends validate gateway fill request s := by
  obtain ⟨diff,built,_⟩ := rollbackDiff_parts gateway fill (serveApps fill s.serve) setting.current
  have taken : next validate gateway fill request s .reads =
      some {s with point := .deleting diff diff.leftovers,skipped := diff.deploys.map (·.app gateway)} := by
    simp only [next,reading,safe.unwritten,built,Option.map_some]
  exact Ends.after taken (deletes_end rfl)

theorem rollback_ends {table : Dict String String} (setting : Setting validate gateway current committed request)
    (valid : versionApps validate gateway committed = some table)
    (safe : Safe validate gateway fill current committed s) (rolling : s.point.rollsBack = true) :
    Ends validate gateway fill request s := by
  cases at_ : s.point with
  | resetting =>
      have reset : ∃ t, next validate gateway fill request s .resets = some t ∧ t.point = .reading := by
        simp only [next,at_]
        split
        · exact ⟨_,rfl,rfl⟩
        · simp only [World.route,safe.unwritten,valid,Option.map_some]
          exact ⟨_,rfl,rfl⟩
      obtain ⟨t,taken,reading⟩ := reset
      exact Ends.after taken (reading_ends setting (next_safe setting safe taken) reading)
  | reading => exact reading_ends setting safe at_
  | deleting diff left => exact deletes_end at_
  | restoring left => exact restoring_ends at_
  | «over» => exact ⟨[],s,rfl,at_⟩
  | _ => simp [at_,Point.rollsBack] at rolling

end

def heldScaling (fill : Autoscaling → Autoscaling) (serve : Dict String App) (name : String) : Option Held :=
  ((serveApps fill serve).get? name).bind HeldApp.scaling

-- However far a blue-green request got before its commit was written, its rollback can
-- come to an end, and there the gateway is as it was: the same model apps, the same routes
-- and, for each app that the rollback did not find failed and Serve did not go on refusing to
-- rescale, the same replica-count fields.
theorem rollback_restores_the_gateway {Raw : Type} [DecidableEq Raw] (validate : Raw → Option Config) (gateway : String)
    (fill : Autoscaling → Autoscaling) (request : Request Raw) {current : List Config} {s t : World Raw} {actions : List Action}
    (setting : Setting validate gateway current s.committed request) (settled : Settled validate gateway fill current s)
    (ran : execute (next validate gateway fill request) s actions = some t) (rolling : t.point.rollsBack = true) :
    Ends validate gateway fill request t ∧
    (t.point = .over →
      (∀ name, isModelApp gateway name = true → ((t.serve.get? name).isSome ↔ (s.serve.get? name).isSome)) ∧
      (∀ config ∈ current, Happened (next validate gateway fill request) s actions (ReadsFailed (config.app gateway)) ∨
        Happened (next validate gateway fill request) s actions (GivesUp (config.app gateway)) ∨
        heldScaling fill t.serve (config.app gateway) = heldScaling fill s.serve (config.app gateway)) ∧
      t.routing.map Routing.apps = s.routing.map Routing.apps) := by
  have safe := runs_safe setting settled ran
  obtain ⟨seq,table,routing,valid⟩ := settled.routed
  refine ⟨rollback_ends setting valid safe rolling,?_⟩
  intro ended
  have point := safe.point
  rw [ended] at point
  obtain ⟨routed,cleared,restored⟩ := point
  refine ⟨?_,?_,?_⟩
  · intro name ours
    rw [settled.apps name ours]
    constructor
    · intro held
      exact (cleared name ours held).resolve_right List.not_mem_nil
    · intro member
      obtain ⟨config,known,rfl⟩ := List.mem_map.mp member
      obtain ⟨app,held,_⟩ := safe.present config known
      rw [held]
      rfl
  · intro config member
    rcases restored config member with ⟨app,held,same⟩ | nothing | skipped | gave
    · refine .inr (.inr ?_)
      obtain ⟨before,there,wasBuilt,_,was⟩ := settled.live config member
      obtain ⟨after,found,built,_⟩ := safe.present config member
      rw [held] at found
      cases found
      unfold heldScaling
      rw [serveApps_get,serveApps_get,held,there]
      simp only [Option.map_some,Option.bind_some,built,wasBuilt,if_true,same,was]
    · cases nothing
    · exact .inl (runs_skips setting settled ran skipped)
    · exact .inr (.inl (runs_givesUp setting settled ran gave))
  · obtain ⟨last,there,shaped⟩ := safe.routed
    unfold RoutedBack at routed
    rw [there] at routed
    have models : last.models = s.committed := Option.some.inj routed
    rw [models,valid] at shaped
    rw [there,routing,Option.map_some,Option.map_some,Option.some.inj shaped]

section
def Point.isOver {Raw : Type} : Point Raw → Bool
  | .over => true
  | _ => false

theorem isOver_over {Raw : Type} {point : Point Raw} (ended : point.isOver = true) : point = .over := by
  cases point with
  | «over» => rfl
  | _ => cases ended

def modelA (numReplicas : Nat) : Config := ⟨"a","0123456789",⟨numReplicas,none⟩,by unfold IsFingerprint; decide⟩

def modelB : Config := ⟨"b","abcdefabcd",⟨1,none⟩,by unfold IsFingerprint; decide⟩

-- Raw models 0 and 1 are one model with three replicas and with one; 2 is another.
def validated : Nat → Option Config
  | 0 => some (modelA 3)
  | 1 => some (modelA 1)
  | 2 => some modelB
  | _ => none

def oneModel : World Nat where
  serve := ⟨[("g.a-0123456789",⟨.running,modelA 3,true⟩)],by decide⟩
  committed := some [0]
  routing := some ⟨1,some [0],⟨[("a","g.a-0123456789")],by decide⟩⟩
  seq := 1
  point := .diffing
  skipped := []
  gaveUp := []

-- One model loses two replicas, another is added, and the request stops.
def scaledDown : List Action :=
  [.diffs,.clears [],.rescales false,.proceeds,.drifts "g.a-0123456789" .running,.polls,.proceeds,.submits false,.stops,
    .resets,.reads,.deletes [],.gone "g.b-abcdefabcd",.deletes []]

theorem oneModel_setting : Setting validated "g" [modelA 3] oneModel.committed ⟨.additive,some [1,2]⟩ := by
  refine ⟨by decide,by decide,?_,rfl⟩
  intro config asked
  obtain ⟨raws,same,raw,member,valid⟩ := asked
  cases same
  simp only [List.mem_cons,List.not_mem_nil,or_false] at member
  rcases member with rfl | rfl
  · cases valid
    exact ⟨by decide,by decide⟩
  · cases valid
    exact ⟨by decide,by decide⟩

theorem oneModel_settled : Settled validated "g" id [modelA 3] oneModel := by
  refine ⟨?_,?_,⟨1,_,rfl,rfl⟩,rfl,rfl,rfl⟩
  · intro name _
    rw [Dict.get_isSome]
    rfl
  · intro config member
    cases List.mem_singleton.mp member
    have name : (modelA 3).app "g" = "g.a-0123456789" := by decide +kernel
    rw [name]
    exact ⟨_,Dict.mem_get_some List.mem_cons_self,rfl,rfl,rfl⟩

theorem rollback_restores_the_gateway_scaled :
    ∃ t, execute (next validated "g" id ⟨.additive,some [1,2]⟩) oneModel (scaledDown ++ [.restores [] []]) = some t ∧
      (∀ name, isModelApp "g" name = true → ((t.serve.get? name).isSome ↔ (oneModel.serve.get? name).isSome)) ∧
      heldScaling id t.serve "g.a-0123456789" = some (.fixed 3) ∧
      t.routing.map Routing.apps = oneModel.routing.map Routing.apps := by
  have run : ((execute (next validated "g" id ⟨.additive,some [1,2]⟩) oneModel (scaledDown ++ [.restores [] []])).any
      fun t => t.point.isOver && decide (heldScaling id t.serve "g.a-0123456789" = some (.fixed 3))) = true := by
    decide +kernel
  obtain ⟨t,ran,seen⟩ := (Option.any_eq_true _ _).mp run
  obtain ⟨ended,held⟩ := Bool.and_eq_true_iff.mp seen
  have point := isOver_over ended
  obtain ⟨_,ended⟩ := rollback_restores_the_gateway validated "g" id ⟨.additive,some [1,2]⟩ oneModel_setting oneModel_settled ran
    (by rw [point]; rfl)
  obtain ⟨apps,_,routing⟩ := ended point
  exact ⟨t,ran,apps,of_decide_eq_true held,routing⟩

-- Serve refuses to rescale the app until the rollback's time is up: it keeps one replica.
theorem rollback_gives_up :
    ∃ t, Setting validated "g" [modelA 3] oneModel.committed ⟨.additive,some [1,2]⟩ ∧ Settled validated "g" id [modelA 3] oneModel ∧
      execute (next validated "g" id ⟨.additive,some [1,2]⟩) oneModel
        (scaledDown ++ [.restores ["g.a-0123456789"] [],.restores ["g.a-0123456789"] ["g.a-0123456789"]]) = some t ∧
      t.point = .over ∧ heldScaling id oneModel.serve "g.a-0123456789" = some (.fixed 3) ∧
      heldScaling id t.serve "g.a-0123456789" = some (.fixed 1) := by
  have run : ((execute (next validated "g" id ⟨.additive,some [1,2]⟩) oneModel
      (scaledDown ++ [.restores ["g.a-0123456789"] [],.restores ["g.a-0123456789"] ["g.a-0123456789"]])).any
      fun t => t.point.isOver && decide (heldScaling id t.serve "g.a-0123456789" = some (.fixed 1))) = true := by
    decide +kernel
  obtain ⟨t,ran,seen⟩ := (Option.any_eq_true _ _).mp run
  obtain ⟨ended,held⟩ := Bool.and_eq_true_iff.mp seen
  exact ⟨t,oneModel_setting,oneModel_settled,ran,isOver_over ended,by decide +kernel,of_decide_eq_true held⟩

end

end Modelship.Deploy.Rollback
