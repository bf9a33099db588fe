import Modelship.Deploy.Worker

namespace Modelship.Deploy.Rollback
open Foundation Modelship.Gateway

-- An app's name tells its model's.
theorem app_name {gateway : String} {one two : Config} (same : one.app gateway = two.app gateway) : one.name = two.name :=
  deploymentName_model one.printed two.printed same

theorem app_isModelApp (gateway : String) (config : Config) : isModelApp gateway (config.app gateway) = true :=
  isModelApp_deploymentName gateway config.name config.printed

section
variable {Raw : Type} {validate : Raw → Option Config} {gateway : String} {fill : Autoscaling → Autoscaling}

theorem toConfig_parts {raws : List Raw} {configs : List Config} (done : toConfig validate raws = some configs) :
    raws.mapM validate = some configs ∧ (configs.map Config.name).Nodup := by
  unfold toConfig at done
  obtain ⟨found,checked,once⟩ := Option.bind_eq_some_iff.mp done
  split at once
  · cases once
    exact ⟨checked,‹_›⟩
  · cases once

theorem currentConfigs_parts {committed : Option (List Raw)} {current : List Config}
    (done : currentConfigs validate committed = some current) :
    (committed.getD []).mapM validate = some current ∧ (current.map Config.name).Nodup := by
  unfold currentConfigs at done
  split at done
  · cases done
    exact ⟨rfl,List.nodup_nil⟩
  · cases done
    exact ⟨rfl,List.nodup_nil⟩
  · exact toConfig_parts done

theorem find_named {configs : List Config} {config : Config} (once : (configs.map Config.name).Nodup)
    (member : config ∈ configs) : configs.find? (·.name = config.name) = some config := by
  cases found : configs.find? (·.name = config.name) with
  | none =>
      have missed := List.find?_eq_none.mp found config member
      simp at missed
  | some other =>
      have same : other.name = config.name := by simpa using List.find?_some found
      rw [List.inj_on_of_nodup_map once (List.mem_of_find?_eq_some found) member same]

-- What the models merged so far are: each under its own app, and one for a name.
structure Sorted (validate : Raw → Option Config) (gateway : String) (merged : Merged Raw) : Prop where
  valid : ∀ app raw, merged.apps.get? app = some raw → ∃ config, validate raw = some config ∧ app = config.app gateway ∧
    merged.byName.get? config.name = some app
  named : ∀ name app, merged.byName.get? name = some app → ∃ config : Config, config.name = name ∧ app = config.app gateway

theorem Sorted.start (validate : Raw → Option Config) (gateway : String) :
    Sorted validate gateway (⟨Dict.empty,Dict.empty⟩ : Merged Raw) := ⟨nofun,nofun⟩

theorem Sorted.sets {merged : Merged Raw} {raw : Raw} {config : Config} {apps : Dict String Raw}
    (sorted : Sorted validate gateway merged) (valid : validate raw = some config)
    (fewer : ∀ app raw, apps.get? app = some raw → merged.apps.get? app = some raw ∧
      merged.byName.get? config.name ≠ some app) :
    Sorted validate gateway ⟨apps.set (config.app gateway) raw,merged.byName.set config.name (config.app gateway)⟩ := by
  refine ⟨?_,?_⟩
  · intro app found held
    rw [Dict.get_set] at held
    split at held
    case isTrue here =>
      cases held
      exact ⟨config,valid,here.symm,by rw [Dict.get_set,if_pos rfl,here]⟩
    case isFalse apart =>
      obtain ⟨before,other⟩ := fewer app found held
      obtain ⟨kept,checked,named,byName⟩ := sorted.valid app found before
      refine ⟨kept,checked,named,?_⟩
      rw [Dict.get_set,if_neg]
      · exact byName
      · intro same
        exact other (same ▸ byName)
  · intro name app held
    dsimp only at held
    rw [Dict.get_set] at held
    split at held
    case isTrue here =>
      cases held
      exact ⟨config,here,rfl⟩
    case isFalse => exact sorted.named name app held

theorem Sorted.commits {merged : Merged Raw} {raw : Raw} {config : Config} (sorted : Sorted validate gateway merged)
    (valid : validate raw = some config) (fresh : merged.byName.get? config.name = none) :
    Sorted validate gateway (mergeCommitted gateway merged raw config) := by
  apply sorted.sets valid
  intro app found held
  exact ⟨held,by rw [fresh]; nofun⟩

theorem Sorted.takes {merged : Merged Raw} {raw : Raw} {config : Config} (sorted : Sorted validate gateway merged)
    (valid : validate raw = some config) : Sorted validate gateway (mergeInput gateway merged raw config) := by
  unfold mergeInput
  dsimp only
  split
  case isTrue present =>
    -- the entry of the same app has the same name
    obtain ⟨old,held⟩ := Option.isSome_iff_exists.mp present
    obtain ⟨before,_,same,byName⟩ := sorted.valid _ old held
    refine ⟨?_,sorted.named⟩
    intro app found there
    dsimp only at there
    rw [Dict.get_set] at there
    split at there
    case isTrue here =>
      cases there
      exact ⟨config,valid,here.symm,by rw [app_name same,byName,here]⟩
    case isFalse => exact sorted.valid app found there
  case isFalse absent =>
    cases prior : merged.byName.get? config.name with
    | none =>
        apply sorted.sets valid
        intro app found held
        refine ⟨held,?_⟩
        rw [prior]
        exact (Option.some_ne_none _).symm
    | some old =>
        apply sorted.sets valid
        intro app found held
        dsimp only at held
        rw [Dict.get_erase] at held
        split at held
        · cases held
        · rename_i apart
          refine ⟨held,?_⟩
          rw [prior]
          intro same
          exact apart (Option.some.inj same)

-- An input model stays under its app while others are merged.
theorem takes_other {merged : Merged Raw} {raw kept : Raw} {config other : Config} (sorted : Sorted validate gateway merged)
    (apart : other.name ≠ config.name) (held : merged.apps.get? (other.app gateway) = some kept) :
    (mergeInput gateway merged raw config).apps.get? (other.app gateway) = some kept := by
  have away : config.app gateway ≠ other.app gateway := fun same => apart (app_name same).symm
  unfold mergeInput
  dsimp only
  split
  · rw [Dict.get_set,if_neg away]
    exact held
  · rw [Dict.get_set,if_neg away]
    cases prior : merged.byName.get? config.name with
    | none => exact held
    | some old =>
        obtain ⟨named,name,app⟩ := sorted.named _ _ prior
        rw [Dict.get_erase,if_neg]
        · exact held
        · intro same
          rw [app] at same
          exact apart ((app_name same).symm.trans name)

theorem takes_held {merged : Merged Raw} (raw : Raw) (config : Config) :
    (mergeInput gateway merged raw config).apps.get? (config.app gateway) = some raw := by
  unfold mergeInput
  dsimp only
  split <;> rw [Dict.get_set,if_pos rfl]

theorem mergeAll_cons {step : Merged Raw → Raw → Config → Merged Raw} {merged after : Merged Raw} {raw : Raw} {rest : List Raw}
    {config : Config} (valid : validate raw = some config) :
    mergeAll validate step merged (raw :: rest) = some after ↔ mergeAll validate step (step merged raw config) rest = some after := by
  simp [mergeAll,List.foldlM_cons,valid]

theorem mergeAll_some (step : Merged Raw → Raw → Config → Merged Raw) {raws : List Raw} {configs : List Config}
    (checked : List.Forall₂ (fun raw config => validate raw = some config) raws configs) (merged : Merged Raw) :
    ∃ after, mergeAll validate step merged raws = some after := by
  induction checked generalizing merged with
  | nil => exact ⟨merged,rfl⟩
  | @cons raw config raws configs valid others ih =>
      obtain ⟨after,done⟩ := ih (step merged raw config)
      exact ⟨after,(mergeAll_cons valid).mpr done⟩

-- The committed names that follow are not taken yet.
theorem commits_fresh {merged : Merged Raw} (raw : Raw) {config : Config} {configs : List Config}
    (new : config.name ∉ configs.map Config.name)
    (fresh : ∀ later ∈ config :: configs, merged.byName.get? later.name = none) :
    ∀ later ∈ configs, (mergeCommitted gateway merged raw config).byName.get? later.name = none := by
  intro later member
  unfold mergeCommitted
  dsimp only
  rw [Dict.get_set,if_neg]
  · exact fresh later (List.mem_cons_of_mem _ member)
  · intro same
    exact new (same ▸ List.mem_map.mpr ⟨later,member,rfl⟩)

theorem committed_sorted {raws : List Raw} {configs : List Config} {merged after : Merged Raw}
    (checked : List.Forall₂ (fun raw config => validate raw = some config) raws configs)
    (once : (configs.map Config.name).Nodup) (sorted : Sorted validate gateway merged)
    (fresh : ∀ config ∈ configs, merged.byName.get? config.name = none)
    (done : mergeAll validate (mergeCommitted gateway) merged raws = some after) : Sorted validate gateway after := by
  induction checked generalizing merged with
  | nil =>
      cases done
      exact sorted
  | @cons raw config raws configs valid others ih =>
      obtain ⟨new,apart⟩ := List.nodup_cons.mp once
      have unused := fresh config List.mem_cons_self
      exact ih apart (sorted.commits valid unused) (commits_fresh raw new fresh) ((mergeAll_cons valid).mp done)

-- Every input model ends under its own app.
theorem input_sorted {raws : List Raw} {configs : List Config} {merged after : Merged Raw}
    (checked : List.Forall₂ (fun raw config => validate raw = some config) raws configs)
    (once : (configs.map Config.name).Nodup) (sorted : Sorted validate gateway merged)
    (done : mergeAll validate (mergeInput gateway) merged raws = some after) :
    Sorted validate gateway after ∧
    (∀ other : Config, ∀ kept, other.name ∉ configs.map Config.name → merged.apps.get? (other.app gateway) = some kept →
      after.apps.get? (other.app gateway) = some kept) ∧
    ∀ config ∈ configs, ∃ raw, validate raw = some config ∧ after.apps.get? (config.app gateway) = some raw := by
  induction checked generalizing merged with
  | nil =>
      cases done
      exact ⟨sorted,fun _ _ _ held => held,nofun⟩
  | @cons raw config raws configs valid others ih =>
      obtain ⟨new,apart⟩ := List.nodup_cons.mp once
      obtain ⟨last,kept,held⟩ := ih apart (sorted.takes valid) ((mergeAll_cons valid).mp done)
      refine ⟨last,?_,?_⟩
      · intro other raw missed there
        rw [List.map_cons,List.mem_cons,not_or] at missed
        exact kept other raw missed.2 (takes_other sorted missed.1 there)
      · intro later member
        rcases List.mem_cons.mp member with rfl | further
        · exact ⟨raw,valid,kept later raw new (takes_held raw later)⟩
        · exact held later further

theorem paired_keys {entries : List (String × Raw)} {configs : List Config}
    (paired : List.Forall₂ (fun entry config => entry.1 = config.app gateway) entries configs) :
    entries.map Prod.fst = configs.map (·.app gateway) := by
  induction paired with
  | nil => rfl
  | cons same others ih => rw [List.map_cons,List.map_cons,same,ih]

-- The merged models have one entry for a name.
theorem Sorted.names {merged : Merged Raw} {configs : List Config} (sorted : Sorted validate gateway merged)
    (checked : (merged.apps.entries.map Prod.snd).mapM validate = some configs) : (configs.map Config.name).Nodup := by
  have paired := mapM_paired checked
  rw [List.forall₂_map_left_iff] at paired
  have keyed : ∀ entry ∈ merged.apps.entries, ∀ config, validate entry.2 = some config →
      entry.1 = config.app gateway ∧ merged.byName.get? config.name = some entry.1 := by
    intro entry member config valid
    obtain ⟨found,also,app,byName⟩ := sorted.valid entry.1 entry.2 (Dict.mem_get_some member)
    rw [valid] at also
    cases also
    exact ⟨app,byName⟩
  have keys : merged.apps.entries.map Prod.fst = configs.map (·.app gateway) := by
    apply paired_keys
    exact paired_mono paired (fun entry member config valid => (keyed entry member config valid).1)
  have apart : (configs.map (·.app gateway)).Nodup := keys ▸ merged.apps.distinct
  refine List.Nodup.map_on ?_ (List.Nodup.of_map _ apart)
  intro one first two second same
  obtain ⟨entry,member,valid⟩ := paired_right paired first
  obtain ⟨other,there,also⟩ := paired_right paired second
  obtain ⟨oneApp,oneName⟩ := keyed entry member one valid
  obtain ⟨twoApp,twoName⟩ := keyed other there two also
  rw [same,twoName] at oneName
  have equal : one.app gateway = two.app gateway := by
    rw [← oneApp,← twoApp,Option.some.inj oneName]
  exact List.inj_on_of_nodup_map apart first second equal

-- The version a request proposes has each of its models, with its app and fields.
theorem merge_deployed {committed : Option (List Raw)} {current wanted : List Config} {models proposed : List Raw} {mode : Mode}
    {table : Dict String (String × Scaling)} (before : currentConfigs validate committed = some current)
    (asked : toConfig validate models = some wanted)
    (merged : merge validate gateway (committed.getD []) models mode = some proposed)
    (after : deployed validate gateway proposed = some table) :
    (∀ config ∈ wanted, table.get? config.name = some (config.app gateway,config.scaling)) ∧
    (mode = .reconcile → ∀ name, (table.get? name).isSome → name ∈ wanted.map Config.name) := by
  obtain ⟨checked,once⟩ := toConfig_parts asked
  obtain ⟨configs,valid,rfl⟩ := Option.map_eq_some_iff.mp after
  unfold merge at merged
  rw [asked] at merged
  dsimp only [Option.bind_some] at merged
  split at merged
  case isTrue reconciles =>
    cases merged
    rw [checked] at valid
    cases valid
    refine ⟨fun config member => Dict.fill_member _ _ once member,?_⟩
    intro _ name held
    by_contra missed
    rw [Dict.fill_other _ _ missed] at held
    cases held
  case isFalse adds =>
    refine ⟨?_,fun reconciles => absurd reconciles adds⟩
    obtain ⟨result,whole,rfl⟩ := Option.map_eq_some_iff.mp merged
    obtain ⟨base,first,second⟩ := Option.bind_eq_some_iff.mp whole
    obtain ⟨old,distinct⟩ := currentConfigs_parts before
    have start := Sorted.start validate gateway
    have sorted := committed_sorted (mapM_paired old) distinct start (fun _ _ => rfl) first
    obtain ⟨last,_,held⟩ := input_sorted (mapM_paired checked) once sorted second
    have names := last.names valid
    intro config member
    obtain ⟨raw,good,there⟩ := held config member
    have listed : raw ∈ result.apps.entries.map Prod.snd := List.mem_map.mpr ⟨_,Dict.get_some_mem there,rfl⟩
    obtain ⟨found,present,same⟩ := paired_left (mapM_paired valid) listed
    rw [good] at same
    cases same
    exact Dict.fill_member _ _ names present

-- A decision leaves the leftovers alone, deploys no other config, and retires an app only
-- where its model gets another one.
theorem decide_parts (gateway : String) (fill : Autoscaling → Autoscaling) (apps : Dict String HeldApp) (diff : Diff Raw) (config : Config) (before : Option Config) :
    (decide_ gateway fill apps diff config before).leftovers = diff.leftovers ∧
    (decide_ gateway fill apps diff config before).commits = diff.commits ∧
    (∀ deploy ∈ (decide_ gateway fill apps diff config before).deploys, deploy ∈ diff.deploys ∨ deploy = config) ∧
    ((∀ old, before = some old → old.app gateway = config.app gateway) →
      (decide_ gateway fill apps diff config before).retired = diff.retired) := by
  have more : ∀ deploy ∈ diff.deploys ++ [config], deploy ∈ diff.deploys ∨ deploy = config := by
    intro deploy member
    exact (List.mem_append.mp member).imp id List.mem_singleton.mp
  have same : ∀ deploy ∈ diff.deploys, deploy ∈ diff.deploys ∨ deploy = config := fun deploy member => .inl member
  cases before with
  | none => exact ⟨rfl,rfl,more,fun _ => rfl⟩
  | some old =>
      unfold decide_
      dsimp only
      split
      case isTrue moved =>
        have never : (∀ found, some old = some found → found.app gateway = config.app gateway) → False :=
          fun kept => moved (kept old rfl)
        split
        · exact ⟨rfl,rfl,more,fun kept => (never kept).elim⟩
        · exact ⟨rfl,rfl,more,fun kept => (never kept).elim⟩
      case isFalse =>
        split
        · exact ⟨rfl,rfl,more,fun _ => rfl⟩
        · split
          · exact ⟨rfl,rfl,more,fun _ => rfl⟩
          · split
            · split
              · exact ⟨rfl,rfl,same,fun _ => rfl⟩
              · exact ⟨rfl,rfl,same,fun _ => rfl⟩
            · exact ⟨rfl,rfl,same,fun _ => rfl⟩

theorem decideAll_parts (gateway : String) (fill : Autoscaling → Autoscaling) (apps : Dict String HeldApp) (current : List Config) (diff : Diff Raw) (wanted : List Config) :
    (decideAll gateway fill apps current diff wanted).leftovers = diff.leftovers ∧
    (decideAll gateway fill apps current diff wanted).commits = diff.commits ∧
    (∀ deploy ∈ (decideAll gateway fill apps current diff wanted).deploys, deploy ∈ diff.deploys ∨ deploy ∈ wanted) ∧
    ((∀ config ∈ wanted, ∀ old, current.find? (·.name = config.name) = some old → old.app gateway = config.app gateway) →
      (decideAll gateway fill apps current diff wanted).retired = diff.retired) := by
  unfold decideAll
  induction wanted generalizing diff with
  | nil => exact ⟨rfl,rfl,fun deploy member => .inl member,fun _ => rfl⟩
  | cons config rest ih =>
      obtain ⟨leftovers,commits,deploys,retired⟩ :=
        decide_parts gateway fill apps diff config (current.find? (·.name = config.name))
      obtain ⟨left,writes,others,kept⟩ := ih (decide_ gateway fill apps diff config (current.find? (·.name = config.name)))
      refine ⟨left.trans leftovers,writes.trans commits,?_,?_⟩
      · intro deploy member
        rcases others deploy member with earlier | later
        · rcases deploys deploy earlier with before | rfl
          · exact .inl before
          · exact .inr List.mem_cons_self
        · exact .inr (List.mem_cons_of_mem _ later)
      · intro stays
        refine (kept ?_).trans (retired (stays config List.mem_cons_self))
        intro later member
        exact stays later (List.mem_cons_of_mem _ member)

def Asked (validate : Raw → Option Config) (request : Request Raw) (config : Config) : Prop :=
  ∃ raws, request.models = some raws ∧ ∃ raw ∈ raws, validate raw = some config

theorem toConfig_asked {request : Request Raw} {raws : List Raw} {wanted : List Config} (models : request.models = some raws)
    (done : toConfig validate raws = some wanted) : ∀ config ∈ wanted, Asked validate request config := by
  intro config member
  obtain ⟨raw,there,valid⟩ := paired_right (mapM_paired (toConfig_parts done).1) member
  exact ⟨raws,models,raw,there,valid⟩

theorem find_parts {configs : List Config} {name : String} {config : Config}
    (found : configs.find? (·.name = name) = some config) : config ∈ configs ∧ config.name = name :=
  ⟨List.mem_of_find?_eq_some found,by simpa using List.find?_some found⟩

theorem unchanged_parts {effective models proposed : List Raw} {mode : Mode} {current wanted : List Config}
    {after before : Dict String (String × Scaling)} (now : currentConfigs validate (some effective) = some current)
    (asked : toConfig validate models = some wanted)
    (merged : merge validate gateway effective models mode = some proposed)
    (held : deployed validate gateway proposed = some after) (was : deployed validate gateway effective = some before)
    (same : after.entries.Perm before.entries) :
    (∀ config ∈ wanted, ∀ old, current.find? (·.name = config.name) = some old → old.app gateway = config.app gateway) ∧
    removes mode current wanted = [] := by
  obtain ⟨checked,once⟩ := currentConfigs_parts now
  obtain ⟨configs,valid,rfl⟩ := Option.map_eq_some_iff.mp was
  have equal : configs = current := Option.some.inj (valid.symm.trans checked)
  subst equal
  obtain ⟨table,only⟩ := merge_deployed now asked merged held
  refine ⟨?_,?_⟩
  · intro config member old found
    obtain ⟨there,name⟩ := find_parts found
    have entry := table config member
    rw [Dict.get_perm same,← name,Dict.fill_member _ _ once there] at entry
    exact (Prod.mk.inj (Option.some.inj entry)).1
  · unfold removes
    split
    case isFalse => rfl
    case isTrue reconciles =>
      refine List.filter_eq_nil_iff.mpr ?_
      intro config member
      have entry : (Dict.fill Config.name (fun config => (config.app gateway,config.scaling)) configs Dict.empty).get?
          config.name = some (config.app gateway,config.scaling) := Dict.fill_member _ _ once member
      have there := only reconciles config.name (by rw [Dict.get_perm same,entry]; rfl)
      simpa using there

-- A request that writes no version leaves each model on its app and removes none.
theorem proposes_parts {request : Request Raw} {committed models : Option (List Raw)} {current wanted : List Config} {commits : Bool}
    (before : currentConfigs validate committed = some current)
    (done : proposes validate gateway request committed current = some (wanted,models,commits)) :
    (∀ config ∈ wanted, config ∈ current ∨ Asked validate request config) ∧
    (commits = false →
      (∀ config ∈ wanted, ∀ old, current.find? (·.name = config.name) = some old → old.app gateway = config.app gateway) ∧
      removes request.mode current wanted = []) := by
  obtain ⟨old,once⟩ := currentConfigs_parts before
  have itself : (∀ config ∈ current, config ∈ current ∨ Asked validate request config) ∧ (commits = false →
      (∀ config ∈ current, ∀ old, current.find? (·.name = config.name) = some old → old.app gateway = config.app gateway) ∧
      removes request.mode current current = []) := by
    refine ⟨fun config member => .inl member,fun _ => ⟨?_,?_⟩⟩
    · intro config member other found
      rw [find_named once member] at found
      cases found
      rfl
    · unfold removes
      split
      · refine List.filter_eq_nil_iff.mpr ?_
        intro config member
        simpa using ⟨config,member,rfl⟩
      · rfl
  unfold proposes at done
  split at done
  · cases done
    exact itself
  · cases done
    exact itself
  · rename_i mode raws mode_ asked
    obtain ⟨configs,checked,rest⟩ := Option.bind_eq_some_iff.mp done
    obtain ⟨proposed,merged,rest⟩ := Option.bind_eq_some_iff.mp rest
    obtain ⟨after,held,rest⟩ := Option.bind_eq_some_iff.mp rest
    have sent := toConfig_asked mode_ checked
    cases committed with
    | none =>
        cases rest
        exact ⟨fun config member => .inr (sent config member),nofun⟩
    | some effective =>
        obtain ⟨was,table,chosen⟩ := Option.map_eq_some_iff.mp rest
        split at chosen
        case isTrue same =>
          cases chosen
          exact ⟨fun config member => .inr (sent config member),
            fun _ => unchanged_parts before checked merged held table same⟩
        case isFalse =>
          cases chosen
          exact ⟨fun config member => .inr (sent config member),nofun⟩

theorem mem_gatewayApps {names : List String} {name : String} :
    name ∈ (gatewayApps names gateway).map Prod.fst ↔ name ∈ names ∧ ∃ model, parseDeploymentName name = some (gateway,model) := by
  unfold gatewayApps
  rw [List.mem_map]
  constructor
  · intro ⟨entry,member,same⟩
    obtain ⟨found,there,parsed⟩ := List.mem_filterMap.mp member
    obtain ⟨⟨owner,model⟩,read,kept⟩ := Option.bind_eq_some_iff.mp parsed
    split at kept
    case isFalse => cases kept
    case isTrue ours =>
      cases kept
      cases same
      cases ours
      exact ⟨there,model,read⟩
  · intro ⟨there,model,read⟩
    refine ⟨(name,model),List.mem_filterMap.mpr ⟨name,there,?_⟩,rfl⟩
    rw [read,Option.bind_some,if_pos rfl]

-- What a worker goes by: leftovers are apps of the gateway the committed version does
-- not name, deploys come from it or from the request, and nothing is retired without a commit.
theorem buildDiff_parts {request : Request Raw} {committed : Option (List Raw)} {apps : Dict String HeldApp} {diff : Diff Raw}
    {current : List Config} (before : currentConfigs validate committed = some current)
    (built : buildDiff validate gateway fill request committed apps = some diff) :
    (∀ name, name ∈ diff.leftovers ↔ name ∈ apps.entries.map Prod.fst ∧ (∃ model, parseDeploymentName name = some (gateway,model)) ∧
      name ∉ current.map (·.app gateway)) ∧
    (∀ deploy ∈ diff.deploys, deploy ∈ current ∨ Asked validate request deploy) ∧
    (diff.commits = false → diff.retired = []) := by
  unfold buildDiff at built
  rw [before] at built
  obtain ⟨⟨wanted,models,commits⟩,proposed,same⟩ := Option.map_eq_some_iff.mp built
  obtain ⟨sources,kept⟩ := proposes_parts before proposed
  dsimp only at same
  generalize base : (⟨Dict.empty,_,[],[],[],[],models,commits⟩ : Diff Raw) = start at same
  obtain ⟨leftovers,writes,deploys,retired⟩ := decideAll_parts gateway fill apps current start wanted
  cases same
  refine ⟨?_,?_,?_⟩
  · intro name
    rw [leftovers,← base]
    dsimp only
    rw [List.mem_insertionSort,List.mem_filter,mem_gatewayApps,decide_eq_true_eq,and_assoc]
  · intro deploy member
    rcases deploys deploy member with nothing | there
    · rw [← base] at nothing
      cases nothing
    · exact sources deploy there
  · intro none_
    have quiet : commits = false := by
      dsimp only at none_
      rw [writes,← base] at none_
      exact none_
    obtain ⟨stays,removed⟩ := kept quiet
    dsimp only
    rw [retired stays,removed,← base]
    rfl

def Config.restored (gateway : String) (config : Config) : Rescale := ⟨config.name,config.app gateway,config.scaling⟩

-- What a rollback's diff says of a committed model: to be deployed again, to be rescaled,
-- or held with its replica-count fields.
def Told (gateway : String) (fill : Autoscaling → Autoscaling) (apps : Dict String HeldApp) (diff : Diff Raw) (config : Config) :
    Prop :=
  config ∈ diff.deploys ∨ config.restored gateway ∈ diff.scaleDowns ++ diff.scaleUps ∨
    ∃ held, apps.get? (config.app gateway) = some held ∧ held.scaling = some (serveScaling fill config.scaling)

-- Serve does not have the app, or not alive.
def Lost (gateway : String) (apps : Dict String HeldApp) (config : Config) : Prop :=
  ∀ held, apps.get? (config.app gateway) = some held → notLive held.status = true

-- The diff grows, by a committed model alone.
structure Grows (gateway : String) (apps : Dict String HeldApp) (config : Config) (one two : Diff Raw) : Prop where
  deploys : one.deploys ⊆ two.deploys
  lost : ∀ deploy ∈ two.deploys, deploy ∈ one.deploys ∨ deploy = config ∧ Lost gateway apps config
  rescales : one.scaleDowns ++ one.scaleUps ⊆ two.scaleDowns ++ two.scaleUps
  only : ∀ rescale ∈ two.scaleDowns ++ two.scaleUps, rescale ∈ one.scaleDowns ++ one.scaleUps ∨
    rescale = config.restored gateway

theorem decide_itself (gateway : String) (fill : Autoscaling → Autoscaling) (apps : Dict String HeldApp) (diff : Diff Raw)
    (config : Config) :
    Told gateway fill apps (decide_ gateway fill apps diff config (some config)) config ∧
      Grows gateway apps config diff (decide_ gateway fill apps diff config (some config)) := by
  have kept : ∀ rescale ∈ diff.scaleDowns ++ diff.scaleUps, rescale ∈ diff.scaleDowns ++ diff.scaleUps ∨
      rescale = config.restored gateway := fun rescale member => .inl member
  have none_ : ∀ deploy ∈ diff.deploys, deploy ∈ diff.deploys ∨ deploy = config ∧ Lost gateway apps config :=
    fun deploy member => .inl member
  have again : Lost gateway apps config → ∀ deploy ∈ diff.deploys ++ [config],
      deploy ∈ diff.deploys ∨ deploy = config ∧ Lost gateway apps config := by
    intro lost deploy member
    exact (List.mem_append.mp member).imp id (fun here => ⟨List.mem_singleton.mp here,lost⟩)
  unfold decide_
  simp only [ne_eq,not_true_eq_false,if_false]
  split
  case h_1 missing =>
    have lost : Lost gateway apps config := fun held found => by rw [missing] at found; cases found
    exact ⟨.inl (List.mem_append_right _ List.mem_cons_self),List.subset_append_left _ _,again lost,List.Subset.refl _,kept⟩
  case h_2 held found =>
    split
    case isTrue dead =>
      have lost : Lost gateway apps config := fun other there => by rw [found] at there; cases there; exact dead
      exact ⟨.inl (List.mem_append_right _ List.mem_cons_self),List.subset_append_left _ _,again lost,List.Subset.refl _,kept⟩
    case isFalse =>
      split
      case isFalse same =>
        refine ⟨.inr (.inr ⟨held,found,not_not.mp same⟩),List.Subset.refl _,none_,List.Subset.refl _,kept⟩
      case isTrue =>
        split
        · refine ⟨.inr (.inl ?_),List.Subset.refl _,none_,?_,?_⟩
          · simp [Config.restored]
          · intro rescale member
            simp only [List.mem_append] at member ⊢
            exact member.imp id .inl
          · intro rescale member
            simp only [List.mem_append,List.mem_singleton] at member ⊢
            rcases member with down | up | new
            · exact .inl (.inl down)
            · exact .inl (.inr up)
            · exact .inr new
        · refine ⟨.inr (.inl ?_),List.Subset.refl _,none_,?_,?_⟩
          · simp [Config.restored]
          · intro rescale member
            simp only [List.mem_append] at member ⊢
            exact member.imp .inl id
          · intro rescale member
            simp only [List.mem_append,List.mem_singleton] at member ⊢
            rcases member with (down | new) | up
            · exact .inl (.inl down)
            · exact .inr new
            · exact .inl (.inr up)

theorem Told.grows {apps : Dict String HeldApp} {one two : Diff Raw} {config other : Config}
    (told : Told gateway fill apps one config) (grows : Grows gateway apps other one two) : Told gateway fill apps two config := by
  rcases told with deployed | rescaled | held
  · exact .inl (grows.deploys deployed)
  · exact .inr (.inl (grows.rescales rescaled))
  · exact .inr (.inr held)

theorem decideAll_itself {apps : Dict String HeldApp} {current : List Config} (diff : Diff Raw) {wanted : List Config}
    (found : ∀ config ∈ wanted, current.find? (·.name = config.name) = some config) :
    (∀ config, config ∈ wanted ∨ Told gateway fill apps diff config →
      Told gateway fill apps (decideAll gateway fill apps current diff wanted) config) ∧
    (∀ deploy ∈ (decideAll gateway fill apps current diff wanted).deploys,
      deploy ∈ diff.deploys ∨ deploy ∈ wanted ∧ Lost gateway apps deploy) ∧
    ∀ rescale ∈ (decideAll gateway fill apps current diff wanted).scaleDowns ++
      (decideAll gateway fill apps current diff wanted).scaleUps,
      rescale ∈ diff.scaleDowns ++ diff.scaleUps ∨ ∃ config ∈ wanted, rescale = config.restored gateway := by
  unfold decideAll
  induction wanted generalizing diff with
  | nil =>
      exact ⟨fun config told => told.resolve_left List.not_mem_nil,fun deploy member => .inl member,
        fun rescale member => .inl member⟩
  | cons config rest ih =>
      rw [List.foldl_cons,found config List.mem_cons_self]
      obtain ⟨told,grows⟩ := decide_itself gateway fill apps diff config
      obtain ⟨all,lost,only⟩ := ih (decide_ gateway fill apps diff config (some config))
        (fun later member => found later (List.mem_cons_of_mem _ member))
      refine ⟨?_,?_,?_⟩
      · intro other known
        rcases known with member | before
        · rcases List.mem_cons.mp member with rfl | later
          · exact all other (.inr told)
          · exact all other (.inl later)
        · exact all other (.inr (before.grows grows))
      · intro deploy member
        rcases lost deploy member with earlier | ⟨later,dead⟩
        · rcases grows.lost deploy earlier with before | ⟨rfl,dead⟩
          · exact .inl before
          · exact .inr ⟨List.mem_cons_self,dead⟩
        · exact .inr ⟨List.mem_cons_of_mem _ later,dead⟩
      · intro rescale member
        rcases only rescale member with earlier | ⟨later,there,same⟩
        · rcases grows.only rescale earlier with before | here
          · exact .inl before
          · exact .inr ⟨config,List.mem_cons_self,here⟩
        · exact .inr ⟨later,List.mem_cons_of_mem _ there,same⟩

theorem rollbackDiff_parts (gateway : String) (fill : Autoscaling → Autoscaling) (apps : Dict String HeldApp)
    {committed : Option (List Raw)} {current : List Config} (before : currentConfigs validate committed = some current) :
    ∃ diff, rollbackDiff validate gateway fill committed apps = some diff ∧
      (∀ config ∈ current, Told gateway fill apps diff config) ∧
      (∀ deploy ∈ diff.deploys, deploy ∈ current ∧ Lost gateway apps deploy) ∧
      ∀ rescale ∈ diff.scaleDowns ++ diff.scaleUps, ∃ config ∈ current, rescale = config.restored gateway := by
  obtain ⟨_,once⟩ := currentConfigs_parts before
  have itself : ∀ config ∈ current, current.find? (·.name = config.name) = some config :=
    fun config member => find_named once member
  unfold rollbackDiff buildDiff
  rw [before]
  dsimp only [Option.bind_some,proposes,Option.map_some]
  refine ⟨_,rfl,?_,?_,?_⟩
  · intro config member
    exact (decideAll_itself _ itself).1 config (.inl member)
  · intro deploy member
    exact ((decideAll_itself _ itself).2.1 deploy member).resolve_left List.not_mem_nil
  · intro rescale member
    rcases (decideAll_itself _ itself).2.2 rescale member with nothing | found
    · cases nothing
    · exact found

end

end Modelship.Deploy.Rollback
