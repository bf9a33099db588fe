import Modelship.Deploy.AppNames

namespace Modelship.Deploy.Rollback
open Foundation Modelship.Gateway

-- An additive merge, described by what it holds instead of by its two dictionaries.

section
variable {Raw : Type} {validate : Raw → Option Config} {gateway : String}

def Merged.models (merged : Merged Raw) : List Raw := merged.apps.entries.map Prod.snd

theorem Sorted.models {merged : Merged Raw} {raw : Raw} {config : Config} (sorted : Sorted validate gateway merged)
    (valid : validate raw = some config) : raw ∈ merged.models ↔ merged.apps.get? (config.app gateway) = some raw := by
  constructor
  · intro listed
    obtain ⟨⟨app,_⟩,member,rfl⟩ := List.mem_map.mp listed
    have found := Dict.mem_get_some member
    obtain ⟨other,also,named,_⟩ := sorted.valid app _ found
    rw [valid] at also
    cases also
    rw [← named]
    exact found
  · intro found
    exact List.mem_map.mpr ⟨_,Dict.get_some_mem found,rfl⟩

theorem Sorted.validated {merged : Merged Raw} {raw : Raw} (sorted : Sorted validate gateway merged)
    (listed : raw ∈ merged.models) : ∃ config, validate raw = some config := by
  obtain ⟨⟨app,_⟩,member,rfl⟩ := List.mem_map.mp listed
  obtain ⟨config,valid,_⟩ := sorted.valid app _ (Dict.mem_get_some member)
  exact ⟨config,valid⟩

-- Of a name at most one entry is held, under the app that `by_name` has for it.
theorem Sorted.app {merged : Merged Raw} {raw : Raw} {config : Config} (sorted : Sorted validate gateway merged)
    (valid : validate raw = some config) (listed : raw ∈ merged.models) :
    merged.byName.get? config.name = some (config.app gateway) := by
  obtain ⟨other,also,_,byName⟩ := sorted.valid _ raw ((sorted.models valid).mp listed)
  rw [valid] at also
  cases also
  exact byName

-- An input entry puts out the one of its name, and no other.
theorem takes_away {merged : Merged Raw} {raw kept : Raw} {config other : Config} (sorted : Sorted validate gateway merged)
    (valid : validate raw = some config) (also : validate kept = some other) (same : other.name = config.name)
    (there : kept ∈ (mergeInput gateway merged raw config).models) : kept = raw := by
  have after := sorted.takes valid
  have newest : raw ∈ (mergeInput gateway merged raw config).models := (after.models valid).mpr (takes_held raw config)
  have home := after.app also there
  rw [same,after.app valid newest] at home
  have held := (after.models also).mp there
  rw [← Option.some.inj home,takes_held] at held
  exact (Option.some.inj held).symm

theorem takes_kept {merged : Merged Raw} {raw kept : Raw} {config other : Config} (sorted : Sorted validate gateway merged)
    (valid : validate raw = some config) (also : validate kept = some other) (apart : other.name ≠ config.name) :
    kept ∈ (mergeInput gateway merged raw config).models ↔ kept ∈ merged.models := by
  rw [(sorted.takes valid).models also,sorted.models also]
  constructor
  · intro held
    have away : config.app gateway ≠ other.app gateway := fun same => apart (app_name same).symm
    unfold mergeInput at held
    dsimp only at held
    split at held
    · rwa [Dict.get_set,if_neg away] at held
    · rw [Dict.get_set,if_neg away] at held
      cases prior : merged.byName.get? config.name with
      | none =>
          rw [prior] at held
          exact held
      | some old =>
          rw [prior] at held
          dsimp only at held
          rw [Dict.get_erase] at held
          split at held
          · cases held
          · exact held
  · intro held
    exact takes_other sorted apart held

-- Whether an entry survives a list of names: it has none of them.
def Unnamed (validate : Raw → Option Config) (names : List String) (raw : Raw) : Prop :=
  ∀ config, validate raw = some config → config.name ∉ names

theorem unnamed_cons {raw : Raw} {name : String} {names : List String} :
    Unnamed validate (name :: names) raw ↔ (∀ config, validate raw = some config → config.name ≠ name) ∧
      Unnamed validate names raw := by
  constructor
  · intro missed
    constructor
    · intro config valid same
      exact missed config valid (same ▸ List.mem_cons_self)
    · intro config valid listed
      exact missed config valid (List.mem_cons_of_mem _ listed)
  · intro ⟨here,later⟩ config valid listed
    rcases List.mem_cons.mp listed with same | further
    · exact here config valid same
    · exact later config valid further

theorem takes_models {merged : Merged Raw} {raw kept : Raw} {config : Config} (sorted : Sorted validate gateway merged)
    (valid : validate raw = some config) : kept ∈ (mergeInput gateway merged raw config).models ↔
      kept = raw ∨ kept ∈ merged.models ∧ ∀ other, validate kept = some other → other.name ≠ config.name := by
  have after := sorted.takes valid
  constructor
  · intro there
    obtain ⟨other,also⟩ := after.validated there
    by_cases same : other.name = config.name
    · exact .inl (takes_away sorted valid also same there)
    · refine .inr ⟨(takes_kept sorted valid also same).mp there,?_⟩
      intro again checked
      rw [also] at checked
      cases checked
      exact same
  · intro held
    rcases held with same | ⟨before,apart⟩
    · subst same
      exact (after.models valid).mpr (takes_held kept config)
    · obtain ⟨other,also⟩ := sorted.validated before
      exact (takes_kept sorted valid also (apart other also)).mpr before

-- A merged input: its own entries, and the earlier ones whose names it does not have.
theorem input_models {raws : List Raw} {configs : List Config} {merged after : Merged Raw} {kept : Raw}
    (checked : List.Forall₂ (fun raw config => validate raw = some config) raws configs)
    (once : (configs.map Config.name).Nodup) (sorted : Sorted validate gateway merged)
    (done : mergeAll validate (mergeInput gateway) merged raws = some after) : kept ∈ after.models ↔
      kept ∈ raws ∨ kept ∈ merged.models ∧ Unnamed validate (configs.map Config.name) kept := by
  induction checked generalizing merged with
  | nil =>
      cases done
      simp [Unnamed]
  | @cons raw config raws configs valid others ih =>
      obtain ⟨new,apart⟩ := List.nodup_cons.mp once
      have own : Unnamed validate (configs.map Config.name) raw := by
        intro other also
        rw [valid] at also
        cases also
        exact new
      rw [ih apart (sorted.takes valid) ((mergeAll_cons valid).mp done),takes_models sorted valid,List.map_cons,unnamed_cons,
        List.mem_cons]
      constructor
      · intro held
        rcases held with later | ⟨same | ⟨before,other⟩,missed⟩
        · exact .inl (.inr later)
        · exact .inl (.inl same)
        · exact .inr ⟨before,other,missed⟩
      · intro held
        rcases held with (same | later) | ⟨before,other,missed⟩
        · subst same
          exact .inr ⟨.inl rfl,own⟩
        · exact .inl later
        · exact .inr ⟨.inr ⟨before,other⟩,missed⟩

-- The committed entries stand in the order they were committed in.
theorem committed_models {raws : List Raw} {configs : List Config} {merged after : Merged Raw}
    (checked : List.Forall₂ (fun raw config => validate raw = some config) raws configs)
    (once : (configs.map Config.name).Nodup) (sorted : Sorted validate gateway merged)
    (fresh : ∀ config ∈ configs, merged.byName.get? config.name = none)
    (done : mergeAll validate (mergeCommitted gateway) merged raws = some after) : after.models = merged.models ++ raws := by
  induction checked generalizing merged with
  | nil =>
      cases done
      rw [List.append_nil]
  | @cons raw config raws configs valid others ih =>
      obtain ⟨new,apart⟩ := List.nodup_cons.mp once
      have unused := fresh config List.mem_cons_self
      have absent : config.app gateway ∉ merged.apps.entries.map Prod.fst := by
        intro present
        obtain ⟨held,found⟩ := Option.isSome_iff_exists.mp (Dict.get_isSome.mpr present)
        obtain ⟨other,_,same,byName⟩ := sorted.valid _ held found
        rw [← app_name same,unused] at byName
        cases byName
      have added : (mergeCommitted gateway merged raw config).models = merged.models ++ [raw] := by
        show (Dict.put _ raw merged.apps.entries).map Prod.snd = _
        rw [Dict.put_absent raw absent,List.map_append]
        rfl
      rw [ih apart (sorted.commits valid unused) (commits_fresh raw new fresh) ((mergeAll_cons valid).mp done),added,
        List.append_assoc]
      rfl

-- Taking in what is held already changes nothing.
theorem takes_again {merged : Merged Raw} {raw : Raw} {config : Config}
    (held : merged.apps.get? (config.app gateway) = some raw) : mergeInput gateway merged raw config = merged := by
  have same : (merged.apps.set (config.app gateway) raw).entries = merged.apps.entries := by
    have mapped := Dict.put_map id merged.apps.distinct (Dict.get_some_mem held) rfl
    rw [List.map_id,List.map_id] at mapped
    exact mapped
  unfold mergeInput
  dsimp only
  rw [if_pos (Option.isSome_of_eq_some held)]
  obtain ⟨apps,byName⟩ := merged
  generalize apps.set _ raw = next at same
  cases next
  cases apps
  cases same
  rfl

theorem input_again {raws : List Raw} {configs : List Config} {merged : Merged Raw}
    (checked : List.Forall₂ (fun raw config => validate raw = some config) raws configs) (sorted : Sorted validate gateway merged)
    (held : ∀ raw ∈ raws, raw ∈ merged.models) : mergeAll validate (mergeInput gateway) merged raws = some merged := by
  induction checked with
  | nil => rfl
  | @cons raw config raws configs valid others ih =>
      have here := (sorted.models valid).mp (held raw List.mem_cons_self)
      rw [mergeAll_cons valid,takes_again here]
      exact ih fun later member => held later (List.mem_cons_of_mem _ member)

-- `merge` takes the prior app of a name out with `pop`, which fails where the app is missing.
def popInput (gateway : String) (merged : Merged Raw) (raw : Raw) (config : Config) : Option (Merged Raw) :=
  let app := config.app gateway
  if (merged.apps.get? app).isSome then some {merged with apps := merged.apps.set app raw} else
  match merged.byName.get? config.name with
  | none => some ⟨merged.apps.set app raw,merged.byName.set config.name app⟩
  | some prior =>
    if (merged.apps.get? prior).isSome then some ⟨(merged.apps.erase prior).set app raw,merged.byName.set config.name app⟩
    else none

def popAll (validate : Raw → Option Config) (gateway : String) (merged : Merged Raw) (raws : List Raw) : Option (Merged Raw) :=
  raws.foldlM (fun merged raw => (validate raw).bind (popInput gateway merged raw)) merged

def Linked (merged : Merged Raw) : Prop := ∀ name app, merged.byName.get? name = some app → (merged.apps.get? app).isSome

theorem set_held {apps : Dict String Raw} {app other : String} {raw : Raw} (held : (apps.get? app).isSome) :
    ((apps.set other raw).get? app).isSome := by
  rw [Dict.get_set]
  split
  · rfl
  · exact held

theorem Linked.sets {merged : Merged Raw} {apps : Dict String Raw} {raw : Raw} {config : Config}
    (kept : ∀ name app, name ≠ config.name → merged.byName.get? name = some app → (apps.get? app).isSome) :
    Linked ⟨apps.set (config.app gateway) raw,merged.byName.set config.name (config.app gateway)⟩ := by
  intro name app linked
  dsimp only at linked ⊢
  rw [Dict.get_set] at linked
  split at linked
  case isTrue =>
    cases linked
    rw [Dict.get_set_self]
    rfl
  case isFalse other => exact set_held (kept name app (Ne.symm other) linked)

theorem Linked.commits {merged : Merged Raw} (linked : Linked merged) (raw : Raw) (config : Config) :
    Linked (mergeCommitted gateway merged raw config) :=
  Linked.sets fun name app _ held => linked name app held

theorem Linked.takes {merged : Merged Raw} (linked : Linked merged) (sorted : Sorted validate gateway merged) (raw : Raw)
    (config : Config) : Linked (mergeInput gateway merged raw config) := by
  unfold mergeInput
  dsimp only
  split
  · intro name app held
    exact set_held (linked name app held)
  · apply Linked.sets
    intro name app other held
    cases prior : merged.byName.get? config.name with
    | none => exact linked name app held
    | some old =>
        dsimp only
        rw [Dict.get_erase,if_neg]
        · exact linked name app held
        · intro same
          subst same
          -- one app stands for one name
          obtain ⟨mine,named,app⟩ := sorted.named _ _ prior
          obtain ⟨its,also,there⟩ := sorted.named _ _ held
          rw [app] at there
          exact other (also.symm.trans ((app_name there).symm.trans named))

theorem popInput_takes {merged : Merged Raw} (linked : Linked merged) (raw : Raw) (config : Config) :
    popInput gateway merged raw config = some (mergeInput gateway merged raw config) := by
  unfold popInput mergeInput
  dsimp only
  split
  · rfl
  · cases prior : merged.byName.get? config.name with
    | none => rfl
    | some old =>
        dsimp only
        rw [if_pos (linked config.name old prior)]

theorem committed_linked {raws : List Raw} {merged after : Merged Raw} (linked : Linked merged)
    (done : mergeAll validate (mergeCommitted gateway) merged raws = some after) : Linked after := by
  induction raws generalizing merged with
  | nil =>
      cases done
      exact linked
  | cons raw rest ih =>
      unfold mergeAll at done
      rw [List.foldlM_cons] at done
      obtain ⟨next,here,later⟩ := Option.bind_eq_some_iff.mp done
      obtain ⟨config,_,rfl⟩ := Option.map_eq_some_iff.mp here
      exact ih (linked.commits raw config) later

theorem popAll_takes {raws : List Raw} {configs : List Config} {merged : Merged Raw}
    (checked : List.Forall₂ (fun raw config => validate raw = some config) raws configs) (linked : Linked merged)
    (sorted : Sorted validate gateway merged) :
    popAll validate gateway merged raws = mergeAll validate (mergeInput gateway) merged raws := by
  induction checked generalizing merged with
  | nil => rfl
  | @cons raw config raws configs valid others ih =>
      have next := ih (linked.takes sorted raw config) (sorted.takes valid)
      unfold popAll mergeAll at next ⊢
      rw [List.foldlM_cons,List.foldlM_cons,valid,Option.bind_some,popInput_takes linked,Option.map_some]
      exact next

-- What the committed entries are merged into: themselves, each under its app.
theorem committed_start (gateway : String) {committed : List Raw} {old : List Config} (valid : committed.mapM validate = some old)
    (distinct : (old.map Config.name).Nodup) : ∃ base : Merged Raw,
      mergeAll validate (mergeCommitted gateway) ⟨Dict.empty,Dict.empty⟩ committed = some base ∧
      Sorted validate gateway base ∧ base.models = committed := by
  have checked := mapM_paired valid
  have start := Sorted.start validate gateway
  obtain ⟨base,done⟩ := mergeAll_some (mergeCommitted gateway) checked ⟨Dict.empty,Dict.empty⟩
  have models := committed_models checked distinct start (fun _ _ => rfl) done
  exact ⟨base,done,committed_sorted checked distinct start (fun _ _ => rfl) done,models⟩

theorem merge_adds {committed input : List Raw} {wanted : List Config} {base after : Merged Raw}
    (accepted : toConfig validate input = some wanted)
    (first : mergeAll validate (mergeCommitted gateway) ⟨Dict.empty,Dict.empty⟩ committed = some base)
    (second : mergeAll validate (mergeInput gateway) base input = some after) :
    merge validate gateway committed input .additive = some after.models := by
  unfold merge
  rw [accepted,Option.bind_some,if_neg (by decide),first,Option.bind_some,second]
  rfl

-- No `pop` of a merge fails.
theorem merge_pops {committed input : List Raw} {old wanted : List Config} {base : Merged Raw}
    (valid : committed.mapM validate = some old) (distinct : (old.map Config.name).Nodup)
    (accepted : toConfig validate input = some wanted)
    (first : mergeAll validate (mergeCommitted gateway) ⟨Dict.empty,Dict.empty⟩ committed = some base) :
    (popAll validate gateway base input).map Merged.models = merge validate gateway committed input .additive := by
  have linked := committed_linked (nofun : Linked (⟨Dict.empty,Dict.empty⟩ : Merged Raw)) first
  have sorted := committed_sorted (mapM_paired valid) distinct (Sorted.start validate gateway) (fun _ _ => rfl) first
  have checked := mapM_paired (toConfig_parts accepted).1
  obtain ⟨after,second⟩ := mergeAll_some (mergeInput gateway) checked base
  rw [popAll_takes checked linked sorted,second,merge_adds accepted first second]
  rfl

-- An additive merge holds the input, and what was committed under other names.
theorem merge_additive {committed input : List Raw} {old wanted : List Config} (valid : committed.mapM validate = some old)
    (distinct : (old.map Config.name).Nodup) (accepted : toConfig validate input = some wanted) :
    ∃ result configs, merge validate gateway committed input .additive = some result ∧
      result.mapM validate = some configs ∧ (configs.map Config.name).Nodup ∧
      (∀ raw, raw ∈ result ↔ raw ∈ input ∨ raw ∈ committed ∧ Unnamed validate (wanted.map Config.name) raw) ∧
      merge validate gateway result input .additive = some result := by
  obtain ⟨checked,once⟩ := toConfig_parts accepted
  obtain ⟨base,first,sorted,held⟩ := committed_start gateway valid distinct
  obtain ⟨after,second⟩ := mergeAll_some (mergeInput gateway) (mapM_paired checked) base
  have last := (input_sorted (mapM_paired checked) once sorted second).1
  have whole : ∀ raw, raw ∈ after.models ↔ raw ∈ input ∨ raw ∈ committed ∧ Unnamed validate (wanted.map Config.name) raw := by
    intro raw
    rw [input_models (mapM_paired checked) once sorted second,held]
  obtain ⟨configs,again⟩ := mapM_total fun raw (listed : raw ∈ after.models) => last.validated listed
  have names := last.names again
  obtain ⟨copy,third,resorted,same⟩ := committed_start gateway again names
  have fourth : mergeAll validate (mergeInput gateway) copy input = some copy := by
    apply input_again (mapM_paired checked) resorted
    intro raw listed
    rw [same]
    exact (whole raw).mpr (.inl listed)
  refine ⟨after.models,configs,merge_adds accepted first second,again,names,whole,?_⟩
  rw [merge_adds accepted third fourth,same]

end

def changedConfig (name : String) : Config := ⟨name,"fedcba9876",⟨2,none⟩,⟨by decide,by decide⟩⟩

theorem merge_additive_changed : ∃ result configs,
    merge some "edge" [plainConfig "chat",plainConfig "embed"] [changedConfig "chat"] .additive = some result ∧
      result.mapM some = some configs ∧ (configs.map Config.name).Nodup ∧
      (∀ raw, raw ∈ result ↔ raw ∈ [changedConfig "chat"] ∨
        raw ∈ [plainConfig "chat",plainConfig "embed"] ∧ Unnamed some ["chat"] raw) ∧
      merge some "edge" result [changedConfig "chat"] .additive = some result := by
  have valid : [plainConfig "chat",plainConfig "embed"].mapM some = some [plainConfig "chat",plainConfig "embed"] := rfl
  have accepted : toConfig some [changedConfig "chat"] = some [changedConfig "chat"] := by
    simp [toConfig]
  have distinct : ([plainConfig "chat",plainConfig "embed"].map Config.name).Nodup := by decide
  exact merge_additive valid distinct accepted

end Modelship.Deploy.Rollback
