import Modelship.Deploy.Decisions

namespace Modelship.Deploy.Rollback
open Foundation Modelship.Gateway

-- Where a request's diff leaves its gateway, under either replace strategy.

inductive ReplaceStrategy where
  | blueGreen
  | stopStart
  deriving DecidableEq

section
variable {Raw : Type} (validate : Raw → Option Config) (gateway : String) (fill : Autoscaling → Autoscaling)
  (strategy : ReplaceStrategy)

-- `_decide`: only a blue-green request scales a replaced app down first.
def decideUnder (apps : Dict String HeldApp) (diff : Diff Raw) (config : Config) : Option Config → Diff Raw
  | none => {diff with actions := diff.actions.set config.name .add,deploys := diff.deploys ++ [config]}
  | some before =>
    let app := config.app gateway
    let want := serveScaling fill config.scaling
    let old := before.app gateway
    if old ≠ app then
      let diff := {diff with
        actions := diff.actions.set config.name .replace
        deploys := diff.deploys ++ [config]
        retired := diff.retired ++ [old]}
      if strategy = .blueGreen ∧ ((apps.get? old).map (shrinks · want)).getD false then
        {diff with scaleDowns := diff.scaleDowns ++ [⟨config.name,old,config.scaling⟩]}
      else diff
    else match apps.get? app with
      | none => {diff with actions := diff.actions.set config.name .redeploy,deploys := diff.deploys ++ [config]}
      | some held =>
        if notLive held.status then
          {diff with actions := diff.actions.set config.name .redeploy,deploys := diff.deploys ++ [config]}
        else if held.scaling ≠ some want then
          let diff := {diff with actions := diff.actions.set config.name .rescale}
          if (held.scaling.map (rises · want)).getD true then
            {diff with scaleUps := diff.scaleUps ++ [⟨config.name,app,config.scaling⟩]}
          else {diff with scaleDowns := diff.scaleDowns ++ [⟨config.name,app,config.scaling⟩]}
        else {diff with actions := diff.actions.set config.name .keep}

def decideAllUnder (apps : Dict String HeldApp) (current : List Config) (diff : Diff Raw) (wanted : List Config) : Diff Raw :=
  wanted.foldl (fun diff config =>
    decideUnder gateway fill strategy apps diff config (current.find? (·.name = config.name))) diff

-- `build_diff` for a request of either strategy.
def buildDiffUnder (request : Request Raw) (committed : Option (List Raw)) (apps : Dict String HeldApp) : Option (Diff Raw) :=
  (currentConfigs validate committed).bind fun current =>
    (proposes validate gateway request committed current).map fun (wanted,models,commits) =>
      let named := current.map (·.app gateway)
      let found := (gatewayApps (apps.entries.map Prod.fst) gateway).map Prod.fst
      let leftovers := (found.filter (· ∉ named)).insertionSort (· ≤ ·)
      let diff := decideAllUnder gateway fill strategy apps current ⟨Dict.empty,leftovers,[],[],[],[],models,commits⟩ wanted
      let removed := removes request.mode current wanted
      {diff with
        actions := removed.foldl (fun actions config => actions.set config.name .remove) diff.actions
        retired := (diff.retired ++ removed.map (·.app gateway)).insertionSort (· ≤ ·)}

theorem decideUnder_blueGreen (apps : Dict String HeldApp) (diff : Diff Raw) (config : Config) (before : Option Config) :
    decideUnder gateway fill .blueGreen apps diff config before = decide_ gateway fill apps diff config before := by
  cases before with
  | none => rfl
  | some old =>
      unfold decideUnder decide_
      exact if_congr Iff.rfl (if_congr (and_iff_right rfl) rfl rfl) rfl

-- A blue-green request's diff is the one the worker runs.
theorem buildDiffUnder_blueGreen (request : Request Raw) (committed : Option (List Raw)) (apps : Dict String HeldApp) :
    buildDiffUnder validate gateway fill .blueGreen request committed apps =
      buildDiff validate gateway fill request committed apps := by
  have all : @decideAllUnder Raw gateway fill .blueGreen = @decideAll Raw gateway fill := by
    funext apps current diff wanted
    unfold decideAllUnder decideAll
    simp only [decideUnder_blueGreen]
  unfold buildDiffUnder buildDiff
  rw [all]

-- The apps of the gateway that Serve is left with.
def endApps (apps : Dict String HeldApp) (diff : Diff Raw) : List String :=
  ((gatewayApps (apps.entries.map Prod.fst) gateway).map Prod.fst).filter
    (fun app => decide (app ∉ diff.leftovers ∧ app ∉ diff.retired)) ++ diff.deploys.map (·.app gateway)

def modelApps (models : Option (List Raw)) : List String := ((models.getD []).filterMap validate).map (·.app gateway)

end

section
variable {Raw : Type} {validate : Raw → Option Config} {gateway : String} {fill : Autoscaling → Autoscaling}
  {strategy : ReplaceStrategy}

def Diff.blank : Diff Raw := ⟨Dict.empty,[],[],[],[],[],none,false⟩

-- A decision adds to the diff what it adds to a blank one.
structure Adds (diff one after : Diff Raw) : Prop where
  leftovers : after.leftovers = diff.leftovers
  models : after.models = diff.models
  scaleDowns : after.scaleDowns = diff.scaleDowns ++ one.scaleDowns
  deploys : after.deploys = diff.deploys ++ one.deploys
  scaleUps : after.scaleUps = diff.scaleUps ++ one.scaleUps
  retired : after.retired = diff.retired ++ one.retired

theorem decideUnder_adds (apps : Dict String HeldApp) (diff : Diff Raw) (config : Config) (before : Option Config) :
    Adds diff (decideUnder gateway fill strategy apps Diff.blank config before)
      (decideUnder gateway fill strategy apps diff config before) := by
  cases before with
  | none => constructor <;> simp [decideUnder,Diff.blank]
  | some old =>
      unfold decideUnder
      dsimp only
      split
      case isTrue =>
        split
        · constructor <;> simp [Diff.blank]
        · constructor <;> simp [Diff.blank]
      case isFalse =>
        split
        · constructor <;> simp [Diff.blank]
        · split
          · constructor <;> simp [Diff.blank]
          · split
            · split
              · constructor <;> simp [Diff.blank]
              · constructor <;> simp [Diff.blank]
            · constructor <;> simp [Diff.blank]

theorem decideAllUnder_kept {View : Type} (view : Diff Raw → View) {apps : Dict String HeldApp} {current : List Config}
    (same : ∀ diff config before, view (decideUnder gateway fill strategy apps diff config before) = view diff)
    (diff : Diff Raw) (wanted : List Config) : view (decideAllUnder gateway fill strategy apps current diff wanted) = view diff := by
  unfold decideAllUnder
  induction wanted generalizing diff with
  | nil => rfl
  | cons config rest ih => exact (ih _).trans (same _ _ _)

-- The diff's lists are what each wanted model adds, one after the other.
theorem decideAllUnder_grown {Entry : Type} (view : Diff Raw → List Entry) {apps : Dict String HeldApp} {current : List Config}
    (grows : ∀ diff config before, view (decideUnder gateway fill strategy apps diff config before) =
      view diff ++ view (decideUnder gateway fill strategy apps Diff.blank config before))
    (diff : Diff Raw) (wanted : List Config) :
    view (decideAllUnder gateway fill strategy apps current diff wanted) = view diff ++ wanted.flatMap fun config =>
      view (decideUnder gateway fill strategy apps Diff.blank config (current.find? (·.name = config.name))) := by
  unfold decideAllUnder
  induction wanted generalizing diff with
  | nil => simp
  | cons config rest ih =>
      rw [List.foldl_cons,ih,grows,List.flatMap_cons,List.append_assoc]

-- What a decision adds for a model, by the committed model of its name.
structure Decided (gateway : String) (fill : Autoscaling → Autoscaling) (apps : Dict String HeldApp) (config : Config)
    (before : Option Config) (one : Diff Raw) : Prop where
  deploys : ∀ deploy ∈ one.deploys, deploy = config
  placed : config ∈ one.deploys ∨
    ∃ old, before = some old ∧ old.app gateway = config.app gateway ∧ (apps.get? (config.app gateway)).isSome
  retired : ∀ app, app ∈ one.retired ↔ ∃ old, before = some old ∧ old.app gateway ≠ config.app gateway ∧ app = old.app gateway
  rescales : ∀ rescale ∈ one.scaleDowns ++ one.scaleUps, (apps.get? rescale.app).isSome ∧
    ∃ old, before = some old ∧ rescale.app = old.app gateway ∧ (config ∈ one.deploys → old.app gateway ≠ config.app gateway)
  lowers : ∀ rescale ∈ one.scaleDowns, ∃ held scaling, apps.get? rescale.app = some held ∧ held.scaling = some scaling ∧
    rises scaling (serveScaling fill rescale.scaling) = false

theorem shrinks_parts {old : HeldApp} {want : Held} (lower : shrinks old want = true) :
    ∃ scaling, old.scaling = some scaling ∧ rises scaling want = false := by
  unfold shrinks at lower
  split at lower
  · cases lower
  · rename_i scaling held
    simp only [Bool.and_eq_true,Bool.not_eq_true'] at lower
    exact ⟨scaling,held,lower.2⟩

theorem decideUnder_decided (apps : Dict String HeldApp) (config : Config) (before : Option Config) :
    Decided gateway fill apps config before
      (@decideUnder Raw gateway fill strategy apps Diff.blank config before) := by
  cases before with
  | none =>
      constructor <;> simp [decideUnder,Diff.blank]
  | some old =>
      unfold decideUnder
      dsimp only
      split
      case isTrue moved =>
        split
        case isTrue shrunk =>
          obtain ⟨_,lower⟩ := shrunk
          cases held : apps.get? (old.app gateway) with
          | none => rw [held] at lower; cases lower
          | some app =>
              rw [held] at lower
              obtain ⟨scaling,has,fits⟩ := shrinks_parts lower
              constructor <;> simp [Diff.blank,moved,held,has,fits]
        case isFalse => constructor <;> simp [Diff.blank,moved]
      case isFalse stays =>
        have same : old.app gateway = config.app gateway := not_not.mp stays
        split
        case h_1 missing => constructor <;> simp [Diff.blank,same]
        case h_2 app held =>
          split
          case isTrue => constructor <;> simp [Diff.blank,same]
          case isFalse =>
            split
            case isTrue =>
              split
              case isTrue => constructor <;> simp [Diff.blank,same,held]
              case isFalse fits =>
                cases has : app.scaling with
                | none => rw [has] at fits; exact absurd rfl fits
                | some scaling =>
                    rw [has] at fits
                    constructor <;> simp [Diff.blank,same,held,has]
                    simpa using fits
            case isFalse => constructor <;> simp [Diff.blank,same,held]

theorem mem_modelApps {models : Option (List Raw)} {app : String} : app ∈ modelApps validate gateway models ↔
    ∃ raw ∈ models.getD [], ∃ config, validate raw = some config ∧ config.app gateway = app := by
  unfold modelApps
  rw [List.mem_map]
  constructor
  · intro ⟨config,member,same⟩
    obtain ⟨raw,there,valid⟩ := List.mem_filterMap.mp member
    exact ⟨raw,there,config,valid,same⟩
  · intro ⟨raw,there,config,valid,same⟩
    exact ⟨config,List.mem_filterMap.mpr ⟨raw,there,valid⟩,same⟩

theorem modelApps_checked {raws : List Raw} {configs : List Config} (checked : raws.mapM validate = some configs) (app : String) :
    app ∈ modelApps validate gateway (some raws) ↔ ∃ config ∈ configs, config.app gateway = app := by
  rw [mem_modelApps]
  constructor
  · intro ⟨raw,there,config,valid,same⟩
    obtain ⟨found,member,also⟩ := paired_left (mapM_paired checked) there
    rw [valid] at also
    cases also
    exact ⟨config,member,same⟩
  · intro ⟨config,member,same⟩
    obtain ⟨raw,there,valid⟩ := paired_right (mapM_paired checked) member
    exact ⟨raw,there,config,valid,same⟩

theorem mapM_all {raws : List Raw} (valid : ∀ raw ∈ raws, ∃ config, validate raw = some config) :
    ∃ configs, raws.mapM validate = some configs := by
  induction raws with
  | nil => exact ⟨[],rfl⟩
  | cons raw rest ih =>
      obtain ⟨config,good⟩ := valid raw List.mem_cons_self
      obtain ⟨configs,others⟩ := ih (fun later member => valid later (List.mem_cons_of_mem _ member))
      exact ⟨config :: configs,by rw [List.mapM_cons,good,others]; rfl⟩

-- A committed model is merged under its own app.
theorem committed_held {raws : List Raw} {configs : List Config} {merged after : Merged Raw}
    (checked : List.Forall₂ (fun raw config => validate raw = some config) raws configs)
    (done : mergeAll validate (mergeCommitted gateway) merged raws = some after) :
    ∀ config : Config, config ∈ configs ∨ (merged.apps.get? (config.app gateway)).isSome →
      (after.apps.get? (config.app gateway)).isSome := by
  induction checked generalizing merged with
  | nil =>
      cases done
      intro config known
      exact known.resolve_left List.not_mem_nil
  | @cons raw config raws configs valid others ih =>
      intro other known
      have step := ih ((mergeAll_cons valid).mp done) other
      have held : other = config ∨ (merged.apps.get? (other.app gateway)).isSome →
          ((mergeCommitted gateway merged raw config).apps.get? (other.app gateway)).isSome := by
        intro before
        unfold mergeCommitted
        dsimp only
        rw [Dict.get_set]
        split
        · rfl
        · rename_i apart
          exact before.resolve_left (fun same => apart (by rw [same]))
      rcases known with member | before
      · rcases List.mem_cons.mp member with here | later
        · exact step (.inr (held (.inl here)))
        · exact step (.inl later)
      · exact step (.inr (held (.inr before)))

-- A merge succeeds, and keeps the committed models the input does not name.
theorem merge_keeps (gateway : String) {committed : Option (List Raw)} {current wanted : List Config} {models : List Raw}
    (mode : Mode)
    (before : currentConfigs validate committed = some current) (asked : toConfig validate models = some wanted) :
    ∃ proposed after, merge validate gateway (committed.getD []) models mode = some proposed ∧
      proposed.mapM validate = some after ∧ (mode = .reconcile → proposed = models) ∧
      (mode ≠ .reconcile → ∀ config ∈ current, config.name ∉ wanted.map Config.name →
        config.app gateway ∈ modelApps validate gateway (some proposed)) := by
  obtain ⟨checked,once⟩ := toConfig_parts asked
  obtain ⟨old,distinct⟩ := currentConfigs_parts before
  by_cases reconciles : mode = .reconcile
  · refine ⟨models,wanted,?_,checked,fun _ => rfl,fun other => absurd reconciles other⟩
    unfold merge
    rw [asked,Option.bind_some,if_pos reconciles]
  · obtain ⟨base,first⟩ := mergeAll_some (mergeCommitted gateway) (mapM_paired old) ⟨Dict.empty,Dict.empty⟩
    obtain ⟨result,second⟩ := mergeAll_some (mergeInput gateway) (mapM_paired checked) base
    have sorted := committed_sorted (mapM_paired old) distinct (Sorted.start validate gateway) (fun _ _ => rfl) first
    obtain ⟨last,kept,_⟩ := input_sorted (mapM_paired checked) once sorted second
    have valid : ∀ raw ∈ result.apps.entries.map Prod.snd, ∃ config, validate raw = some config := by
      intro raw member
      obtain ⟨entry,there,rfl⟩ := List.mem_map.mp member
      obtain ⟨config,good,_⟩ := last.valid entry.1 entry.2 (Dict.mem_get_some there)
      exact ⟨config,good⟩
    obtain ⟨after,all⟩ := mapM_all valid
    refine ⟨result.apps.entries.map Prod.snd,after,?_,all,fun same => absurd same reconciles,?_⟩
    · unfold merge
      rw [asked,Option.bind_some,if_neg reconciles,first,Option.bind_some,second,Option.map_some]
    · intro _ config member missed
      obtain ⟨raw,held⟩ := Option.isSome_iff_exists.mp (committed_held (mapM_paired old) first config (.inl member))
      have there := kept config raw missed held
      obtain ⟨found,good,same,_⟩ := last.valid _ _ there
      exact mem_modelApps.mpr ⟨raw,List.mem_map.mpr ⟨_,Dict.get_some_mem there,rfl⟩,found,good,same.symm⟩

-- A request names the models it sends; a bare one the committed models.
def Named (validate : Raw → Option Config) (request : Request Raw) (current : List Config) (config : Config) : Prop :=
  if request.mode = .bare then config ∈ current else Asked validate request config

-- The models a request decides on, against the committed ones and those of the diff.
structure Proposed (validate : Raw → Option Config) (gateway : String) (request : Request Raw) (current wanted : List Config)
    (models : Option (List Raw)) : Prop where
  once : (wanted.map Config.name).Nodup
  sources : ∀ config ∈ wanted, config ∈ current ∨ Asked validate request config
  named : ∀ config, Named validate request current config → config ∈ wanted
  listed : ∀ config ∈ wanted, config.app gateway ∈ modelApps validate gateway models
  kept : request.mode ≠ .reconcile → ∀ config ∈ current, config.name ∉ wanted.map Config.name →
    config.app gateway ∈ modelApps validate gateway models
  only : request.mode ≠ .additive → ∀ app ∈ modelApps validate gateway models, ∃ config ∈ wanted, config.app gateway = app

-- A bare request, or one without models, decides on the committed models.
theorem proposed_itself {request : Request Raw} {committed : Option (List Raw)} {current : List Config}
    (before : currentConfigs validate committed = some current) (without : request.mode = .bare ∨ request.models = none) :
    Proposed validate gateway request current current committed := by
  obtain ⟨checked,once⟩ := currentConfigs_parts before
  have apps : ∀ app, app ∈ modelApps validate gateway committed ↔ ∃ config ∈ current, config.app gateway = app :=
    modelApps_checked checked
  refine ⟨once,fun config member => .inl member,?_,?_,?_,?_⟩
  · intro config named
    unfold Named at named
    split at named
    · exact named
    · rename_i other
      obtain ⟨raws,sent,_⟩ := named
      rw [without.resolve_left other] at sent
      cases sent
  · intro config member
    exact (apps _).mpr ⟨config,member,rfl⟩
  · intro _ config member _
    exact (apps _).mpr ⟨config,member,rfl⟩
  · intro _ app there
    exact (apps app).mp there

theorem asked_named {request : Request Raw} {raws : List Raw} {current wanted : List Config} (sent : request.models = some raws)
    (mode : request.mode ≠ .bare) (asked : toConfig validate raws = some wanted) :
    ∀ config, Named validate request current config → config ∈ wanted := by
  intro config named
  unfold Named at named
  rw [if_neg mode] at named
  obtain ⟨others,also,raw,there,valid⟩ := named
  rw [sent] at also
  cases also
  obtain ⟨found,member,same⟩ := paired_left (mapM_paired (toConfig_parts asked).1) there
  rw [valid] at same
  cases same
  exact member

theorem reconcile_left {mode : Mode} (additive : mode ≠ .additive) (bare : mode ≠ .bare) : mode = .reconcile := by
  cases mode with
  | additive => exact absurd rfl additive
  | reconcile => rfl
  | bare => exact absurd rfl bare

-- A new version lists the models sent, and in an additive request the others of the old one.
theorem proposed_merged {request : Request Raw} {committed : Option (List Raw)} {raws proposed : List Raw}
    {current wanted after : List Config} (before : currentConfigs validate committed = some current)
    (sent : request.models = some raws) (mode : request.mode ≠ .bare) (asked : toConfig validate raws = some wanted)
    (merged : merge validate gateway (committed.getD []) raws request.mode = some proposed)
    (checked : proposed.mapM validate = some after) (replaced : request.mode = .reconcile → proposed = raws)
    (others : request.mode ≠ .reconcile → ∀ config ∈ current, config.name ∉ wanted.map Config.name →
      config.app gateway ∈ modelApps validate gateway (some proposed)) :
    Proposed validate gateway request current wanted (some proposed) := by
  have table : deployed validate gateway proposed =
      some (Dict.fill Config.name (fun config => (config.app gateway,config.scaling)) after Dict.empty) := by
    unfold deployed
    rw [checked,Option.map_some]
  refine ⟨(toConfig_parts asked).2,?_,asked_named sent mode asked,?_,others,?_⟩
  · intro config member
    exact .inr (toConfig_asked sent asked config member)
  · intro config member
    have entry := (merge_deployed before asked merged table).1 config member
    rcases Dict.fill_from _ _ entry with nothing | ⟨found,there,_,same⟩
    · cases nothing
    · exact (modelApps_checked checked _).mpr ⟨found,there,(Prod.mk.inj same).1⟩
  · intro additive app there
    have reconciles := reconcile_left additive mode
    rw [replaced reconciles] at there
    exact (modelApps_checked (toConfig_parts asked).1 app).mp there

-- Where nothing changes, the committed version lists the same apps.
theorem proposed_unchanged {request : Request Raw} {effective raws proposed : List Raw} {current wanted : List Config}
    {after was : Dict String (String × Scaling)} (before : currentConfigs validate (some effective) = some current)
    (sent : request.models = some raws) (mode : request.mode ≠ .bare) (asked : toConfig validate raws = some wanted)
    (merged : merge validate gateway effective raws request.mode = some proposed)
    (held : deployed validate gateway proposed = some after) (old : deployed validate gateway effective = some was)
    (same : after.entries.Perm was.entries) : Proposed validate gateway request current wanted (some effective) := by
  obtain ⟨checked,once⟩ := currentConfigs_parts before
  obtain ⟨configs,valid,rfl⟩ := Option.map_eq_some_iff.mp old
  have equal : configs = current := Option.some.inj (valid.symm.trans checked)
  subst equal
  obtain ⟨table,only⟩ := merge_deployed before asked merged held
  refine ⟨(toConfig_parts asked).2,?_,asked_named sent mode asked,?_,?_,?_⟩
  · intro config member
    exact .inr (toConfig_asked sent asked config member)
  · intro config member
    have entry := table config member
    rw [Dict.get_perm same] at entry
    rcases Dict.fill_from _ _ entry with nothing | ⟨found,there,_,kept⟩
    · cases nothing
    · exact (modelApps_checked valid _).mpr ⟨found,there,(Prod.mk.inj kept).1⟩
  · intro _ config member _
    exact (modelApps_checked valid _).mpr ⟨config,member,rfl⟩
  · intro additive app there
    have reconciles := reconcile_left additive mode
    obtain ⟨config,member,here⟩ := (modelApps_checked valid app).mp there
    have entry : after.get? config.name = some (config.app gateway,config.scaling) :=
      (Dict.get_perm same _).trans (Dict.fill_member _ _ once member)
    obtain ⟨other,wanted_,name⟩ := List.mem_map.mp (only reconciles config.name (by rw [entry]; rfl))
    have also := table other wanted_
    rw [name,entry] at also
    exact ⟨other,wanted_,by rw [← here]; exact (Prod.mk.inj (Option.some.inj also)).1.symm⟩

theorem proposes_proposed {request : Request Raw} {committed : Option (List Raw)} {current : List Config}
    (before : currentConfigs validate committed = some current)
    (valid : request.mode ≠ .bare → ∀ raws, request.models = some raws → ∃ wanted, toConfig validate raws = some wanted) :
    ∃ wanted models commits, proposes validate gateway request committed current = some (wanted,models,commits) ∧
      Proposed validate gateway request current wanted models := by
  by_cases bare : request.mode = .bare
  · exact ⟨current,committed,false,by simp [proposes,bare],proposed_itself before (.inl bare)⟩
  · cases sent : request.models with
    | none => exact ⟨current,committed,false,by simp [proposes,sent],proposed_itself before (.inr sent)⟩
    | some raws =>
        obtain ⟨wanted,asked⟩ := valid bare raws sent
        obtain ⟨proposed,after,merged,checked,replaced,others⟩ := merge_keeps gateway request.mode before asked
        have new := proposed_merged before sent bare asked merged checked replaced others
        have table : deployed validate gateway proposed =
            some (Dict.fill Config.name (fun config => (config.app gateway,config.scaling)) after Dict.empty) := by
          unfold deployed
          rw [checked,Option.map_some]
        unfold proposes
        simp only [sent,asked,merged,table,Option.bind_some]
        cases committed with
        | none => exact ⟨wanted,some proposed,true,rfl,new⟩
        | some effective =>
            obtain ⟨known,_⟩ := currentConfigs_parts before
            have was : deployed validate gateway effective =
                some (Dict.fill Config.name (fun config => (config.app gateway,config.scaling)) current Dict.empty) := by
              unfold deployed
              rw [show effective.mapM validate = some current from known,Option.map_some]
            simp only [was,Option.map_some]
            split
            case isTrue same =>
              exact ⟨wanted,some effective,false,rfl,
                proposed_unchanged before sent bare asked merged table was same⟩
            case isFalse => exact ⟨wanted,some proposed,true,rfl,new⟩

-- Where a diff ends, with what it stops and rescales on the way.
structure Arrives (validate : Raw → Option Config) (gateway : String) (fill : Autoscaling → Autoscaling) (request : Request Raw)
    (current : List Config) (apps : Dict String HeldApp) (diff : Diff Raw) : Prop where
  inside : ∀ app ∈ endApps gateway apps diff, app ∈ modelApps validate gateway diff.models
  apart : ∀ deploy ∈ diff.deploys, deploy.app gateway ∉ diff.retired
  rescales : ∀ rescale ∈ diff.scaleDowns ++ diff.scaleUps, (apps.get? rescale.app).isSome ∧
    rescale.app ∈ current.map (·.app gateway) ∧ rescale.app ∉ diff.deploys.map (·.app gateway)
  lowers : ∀ rescale ∈ diff.scaleDowns, ∃ held scaling, apps.get? rescale.app = some held ∧ held.scaling = some scaling ∧
    (limits (serveScaling fill rescale.scaling)).1 ≤ (limits scaling).1 ∧
    (limits (serveScaling fill rescale.scaling)).2 ≤ (limits scaling).2

-- Where the gateway's apps can be told from others by their names.
structure Reaches (validate : Raw → Option Config) (gateway : String) (request : Request Raw) (current : List Config)
    (apps : Dict String HeldApp) (diff : Diff Raw) : Prop where
  named : ∀ config, Named validate request current config → config.app gateway ∈ endApps gateway apps diff
  exact : request.mode ≠ .additive → ∀ app, app ∈ endApps gateway apps diff ↔ app ∈ modelApps validate gateway diff.models

-- What the decisions and the removals leave in the diff.
structure Built (gateway : String) (fill : Autoscaling → Autoscaling) (strategy : ReplaceStrategy) (request : Request Raw)
    (current wanted : List Config) (models : Option (List Raw)) (apps : Dict String HeldApp) (diff : Diff Raw) : Prop where
  leftovers : ∀ app, app ∈ diff.leftovers ↔
    app ∈ (gatewayApps (apps.entries.map Prod.fst) gateway).map Prod.fst ∧ app ∉ current.map (·.app gateway)
  models : diff.models = models
  deploys : diff.deploys = wanted.flatMap fun config =>
    (@decideUnder Raw gateway fill strategy apps Diff.blank config (current.find? (·.name = config.name))).deploys
  scaleDowns : diff.scaleDowns = wanted.flatMap fun config =>
    (@decideUnder Raw gateway fill strategy apps Diff.blank config (current.find? (·.name = config.name))).scaleDowns
  scaleUps : diff.scaleUps = wanted.flatMap fun config =>
    (@decideUnder Raw gateway fill strategy apps Diff.blank config (current.find? (·.name = config.name))).scaleUps
  retired : ∀ app, app ∈ diff.retired ↔ app ∈ (wanted.flatMap fun config =>
    (@decideUnder Raw gateway fill strategy apps Diff.blank config (current.find? (·.name = config.name))).retired) ∨
      app ∈ (removes request.mode current wanted).map (·.app gateway)

theorem buildDiffUnder_built {request : Request Raw} {committed models : Option (List Raw)} {apps : Dict String HeldApp}
    {current wanted : List Config} {commits : Bool} (before : currentConfigs validate committed = some current)
    (chosen : proposes validate gateway request committed current = some (wanted,models,commits)) :
    ∃ diff, buildDiffUnder validate gateway fill strategy request committed apps = some diff ∧
      Built gateway fill strategy request current wanted models apps diff := by
  unfold buildDiffUnder
  rw [before,Option.bind_some,chosen,Option.map_some]
  refine ⟨_,rfl,?_,?_,?_,?_,?_,?_⟩
  · intro app
    dsimp only
    rw [decideAllUnder_kept Diff.leftovers (fun _ _ _ => (decideUnder_adds _ _ _ _).leftovers),List.mem_insertionSort,
      List.mem_filter,decide_eq_true_eq]
  · exact decideAllUnder_kept Diff.models (fun _ _ _ => (decideUnder_adds _ _ _ _).models) _ _
  · exact decideAllUnder_grown Diff.deploys (fun _ _ _ => (decideUnder_adds _ _ _ _).deploys) _ _
  · exact decideAllUnder_grown Diff.scaleDowns (fun _ _ _ => (decideUnder_adds _ _ _ _).scaleDowns) _ _
  · exact decideAllUnder_grown Diff.scaleUps (fun _ _ _ => (decideUnder_adds _ _ _ _).scaleUps) _ _
  · intro app
    dsimp only
    rw [decideAllUnder_grown Diff.retired (fun _ _ _ => (decideUnder_adds _ _ _ _).retired),List.mem_insertionSort,
      List.nil_append,List.mem_append]

section
variable {request : Request Raw} {current wanted : List Config} {models : Option (List Raw)} {apps : Dict String HeldApp}
  {diff : Diff Raw}

theorem Built.deployed (built : Built gateway fill strategy request current wanted models apps diff) {deploy : Config}
    (member : deploy ∈ diff.deploys) : deploy ∈ wanted ∧
      deploy ∈ (@decideUnder Raw gateway fill strategy apps Diff.blank deploy
        (current.find? (·.name = deploy.name))).deploys := by
  rw [built.deploys] at member
  obtain ⟨config,there,deployed⟩ := List.mem_flatMap.mp member
  have same := (decideUnder_decided apps config _).deploys deploy deployed
  subst same
  exact ⟨there,deployed⟩

-- No app of a wanted model is retired.
theorem Built.wanted_stays (built : Built gateway fill strategy request current wanted models apps diff)
    (proposed : Proposed validate gateway request current wanted models) {config : Config} (member : config ∈ wanted) :
    config.app gateway ∉ diff.retired := by
  intro gone
  rcases (built.retired _).mp gone with replaced | removed
  · obtain ⟨other,there,retired⟩ := List.mem_flatMap.mp replaced
    obtain ⟨old,found,moved,same⟩ := ((decideUnder_decided apps other _).retired _).mp retired
    obtain ⟨_,name⟩ := find_parts found
    have equal : other = config :=
      List.inj_on_of_nodup_map proposed.once there member (name.symm.trans (app_name same).symm)
    subst equal
    exact moved same.symm
  · obtain ⟨old,listed,same⟩ := List.mem_map.mp removed
    unfold removes at listed
    split at listed
    · have missed := (List.mem_filter.mp listed).2
      rw [app_name same] at missed
      simp at missed
      exact missed config member rfl
    · cases listed

-- A committed app that is not retired is the app of a model of the diff.
theorem Built.committed_stays (built : Built gateway fill strategy request current wanted models apps diff)
    (proposed : Proposed validate gateway request current wanted models) (once : (current.map Config.name).Nodup) {old : Config}
    (member : old ∈ current) (stays : old.app gateway ∉ diff.retired) : old.app gateway ∈ modelApps validate gateway models := by
  by_cases named : old.name ∈ wanted.map Config.name
  · obtain ⟨config,there,name⟩ := List.mem_map.mp named
    have found : current.find? (·.name = config.name) = some old := by
      rw [name]
      exact find_named once member
    by_cases same : old.app gateway = config.app gateway
    · rw [same]
      exact proposed.listed config there
    · refine absurd ((built.retired _).mpr (.inl (List.mem_flatMap.mpr ⟨config,there,?_⟩))) stays
      exact ((decideUnder_decided apps config _).retired _).mpr ⟨old,found,same,rfl⟩
  · by_cases reconciles : request.mode = .reconcile
    · refine absurd ((built.retired _).mpr (.inr (List.mem_map.mpr ⟨old,?_,rfl⟩))) stays
      unfold removes
      rw [if_pos reconciles]
      exact List.mem_filter.mpr ⟨member,by simpa using named⟩
    · exact proposed.kept reconciles old member named

theorem Built.arrives (built : Built gateway fill strategy request current wanted models apps diff)
    (proposed : Proposed validate gateway request current wanted models) (once : (current.map Config.name).Nodup) :
    Arrives validate gateway fill request current apps diff := by
  refine ⟨?_,?_,?_,?_⟩
  · intro app there
    rw [built.models]
    rcases List.mem_append.mp there with held | deployed
    · obtain ⟨found,kept⟩ := List.mem_filter.mp held
      obtain ⟨named,stays⟩ := of_decide_eq_true kept
      have listed : app ∈ current.map (·.app gateway) := by
        by_contra missed
        exact named ((built.leftovers app).mpr ⟨found,missed⟩)
      obtain ⟨old,member,rfl⟩ := List.mem_map.mp listed
      exact built.committed_stays proposed once member stays
    · obtain ⟨config,member,rfl⟩ := List.mem_map.mp deployed
      exact proposed.listed config (built.deployed member).1
  · intro deploy member
    exact built.wanted_stays proposed (built.deployed member).1
  · intro rescale member
    rw [built.scaleDowns,built.scaleUps] at member
    have single : ∃ config ∈ wanted, rescale ∈
        (@decideUnder Raw gateway fill strategy apps Diff.blank config (current.find? (·.name = config.name))).scaleDowns ++
        (@decideUnder Raw gateway fill strategy apps Diff.blank config (current.find? (·.name = config.name))).scaleUps := by
      rcases List.mem_append.mp member with down | up
      · obtain ⟨config,there,one⟩ := List.mem_flatMap.mp down
        exact ⟨config,there,List.mem_append_left _ one⟩
      · obtain ⟨config,there,one⟩ := List.mem_flatMap.mp up
        exact ⟨config,there,List.mem_append_right _ one⟩
    obtain ⟨config,there,one⟩ := single
    obtain ⟨present,old,found,same,apart⟩ := (decideUnder_decided apps config _).rescales rescale one
    obtain ⟨listed,name⟩ := find_parts found
    refine ⟨present,List.mem_map.mpr ⟨old,listed,same.symm⟩,?_⟩
    intro again
    obtain ⟨deploy,asked,here⟩ := List.mem_map.mp again
    obtain ⟨wants,deployed⟩ := built.deployed asked
    have equal : deploy = config :=
      List.inj_on_of_nodup_map proposed.once wants there ((app_name (here.trans same)).trans name)
    subst equal
    exact apart deployed (here.trans same).symm
  · intro rescale member
    rw [built.scaleDowns] at member
    obtain ⟨config,_,one⟩ := List.mem_flatMap.mp member
    obtain ⟨held,scaling,found,has,fits⟩ := (decideUnder_decided apps config _).lowers rescale one
    refine ⟨held,scaling,found,has,?_⟩
    simpa [rises] using fits

theorem Built.reaches (built : Built gateway fill strategy request current wanted models apps diff)
    (proposed : Proposed validate gateway request current wanted models) (once : (current.map Config.name).Nodup)
    (parsed : ∀ config ∈ wanted, ∃ model, parseDeploymentName (config.app gateway) = some (gateway,model)) :
    Reaches validate gateway request current apps diff := by
  have stands : ∀ config ∈ wanted, config.app gateway ∈ endApps gateway apps diff := by
    intro config member
    have decided : Decided gateway fill apps config (current.find? (·.name = config.name))
        (@decideUnder Raw gateway fill strategy apps Diff.blank config (current.find? (·.name = config.name))) :=
      decideUnder_decided apps config _
    rcases decided.placed with deployed | ⟨old,found,same,present⟩
    · refine List.mem_append_right _ (List.mem_map.mpr ⟨config,?_,rfl⟩)
      rw [built.deploys]
      exact List.mem_flatMap.mpr ⟨config,member,deployed⟩
    · refine List.mem_append_left _ (List.mem_filter.mpr ⟨mem_gatewayApps.mpr ⟨Dict.get_isSome.mp present,parsed config member⟩,?_⟩)
      refine decide_eq_true ⟨?_,built.wanted_stays proposed member⟩
      intro left
      exact ((built.leftovers _).mp left).2 (List.mem_map.mpr ⟨old,(find_parts found).1,same⟩)
  refine ⟨fun config named => stands config (proposed.named config named),?_⟩
  intro whole app
  refine ⟨(built.arrives proposed once).inside app,?_⟩
  intro listed
  rw [built.models] at listed
  obtain ⟨config,member,rfl⟩ := proposed.only whole app listed
  exact stands config member

end

end

-- For every request whose models and committed models are valid and named once, a diff is
-- built and ends where its models say.
theorem diff_ends {Raw : Type} {validate : Raw → Option Config} {gateway : String} (fill : Autoscaling → Autoscaling)
    (strategy : ReplaceStrategy) {request : Request Raw} {committed : Option (List Raw)} (apps : Dict String HeldApp)
    {current : List Config} (undotted : '.' ∉ gateway.toList) (held : currentConfigs validate committed = some current)
    (sent : request.mode ≠ .bare → ∀ raws, request.models = some raws → ∃ wanted, toConfig validate raws = some wanted)
    (names : ∀ config, config ∈ current ∨ Asked validate request config → config.name ≠ "" ∧ '\n' ∉ config.name.toList) :
    ∃ diff, buildDiffUnder validate gateway fill strategy request committed apps = some diff ∧
      Arrives validate gateway fill request current apps diff ∧ (gateway ≠ "" → Reaches validate gateway request current apps diff) := by
  obtain ⟨_,once⟩ := currentConfigs_parts held
  obtain ⟨wanted,models,commits,chosen,proposed⟩ := proposes_proposed held sent
  obtain ⟨diff,done,built⟩ := buildDiffUnder_built held chosen
  refine ⟨diff,done,built.arrives proposed once,?_⟩
  intro nonempty
  apply built.reaches proposed once
  intro config member
  obtain ⟨model,line⟩ := names config (proposed.sources config member)
  exact ⟨config.name,parse_deploymentName nonempty undotted model line config.printed⟩

theorem kept_printed : IsFingerprint "0123456789".toList := ⟨by decide,by decide⟩

def keptModel : Config := ⟨"chat","0123456789",⟨2,none⟩,kept_printed⟩

def movedModel : Config := ⟨"chat","abcdef0123",⟨1,none⟩,⟨by decide,by decide⟩⟩

def keptApps (gateway : String) : Dict String HeldApp := Dict.empty.set (keptModel.app gateway) ⟨.running,some (.fixed 2)⟩

-- A replaced model: its new app is deployed, its old one scaled down and retired.
theorem diff_ends_replaced :
    ∃ diff, buildDiffUnder some "api" id .blueGreen ⟨.additive,some [movedModel]⟩ (some [keptModel]) (keptApps "api") = some diff ∧
      Arrives some "api" id ⟨.additive,some [movedModel]⟩ [keptModel] (keptApps "api") diff ∧
      ("api" ≠ "" → Reaches some "api" ⟨.additive,some [movedModel]⟩ [keptModel] (keptApps "api") diff) := by
  apply diff_ends
  · decide
  · rfl
  · intro _ raws sent
    cases sent
    exact ⟨[movedModel],rfl⟩
  · intro config known
    rcases known with member | ⟨raws,sent,raw,there,valid⟩
    · cases List.mem_singleton.mp member
      decide
    · cases sent
      cases List.mem_singleton.mp there
      cases valid
      decide

-- The apps of a gateway without a name parse as no gateway's: its live model is kept, and
-- no app of the end state is its.
theorem unnamed_gateway_keeps_nothing : '.' ∉ "".toList ∧ currentConfigs some (some [keptModel]) = some [keptModel] ∧
    keptModel.name ≠ "" ∧ '\n' ∉ keptModel.name.toList ∧
    ∃ diff, buildDiffUnder some "" id .blueGreen ⟨.bare,none⟩ (some [keptModel]) (keptApps "") = some diff ∧
      Named some (⟨.bare,none⟩ : Request Config) [keptModel] keptModel ∧ keptModel.app "" ∉ endApps "" (keptApps "") diff := by
  refine ⟨by decide,rfl,by decide,by decide,_,rfl,?_,?_⟩
  · exact List.mem_cons_self
  · decide +kernel

end Modelship.Deploy.Rollback
