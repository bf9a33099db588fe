import Mathlib.Data.List.Nodup
import Mathlib.Data.List.Pairwise
import Modelship.Gateway.Coordinator

namespace Modelship.Gateway
open Foundation

-- An app has a handle under a model.
def Routes (replica : Replica) (app model : String) : Prop :=
  ∃ handles, replica.models.get? model = some handles ∧ app ∈ handles

-- A table in order: each app is under one model, each model has an app and one card.
structure Tidy (replica : Replica) : Prop where
  once : replica.routed.Nodup
  cards : replica.cards = replica.models.entries.map Prod.fst
  served : ∀ model handles, replica.models.get? model = some handles → handles ≠ []

section
variable {replica : Replica} {app model : String}

theorem routed_routes : app ∈ replica.routed ↔ ∃ model, Routes replica app model := by
  unfold Replica.routed Routes
  rw [List.mem_flatMap]
  constructor
  · rintro ⟨⟨model,handles⟩,there,within⟩
    exact ⟨model,handles,Dict.mem_get_some there,within⟩
  · rintro ⟨model,handles,found,within⟩
    exact ⟨(model,handles),Dict.get_some_mem found,within⟩

theorem Tidy.single (tidy : Tidy replica) {other : String} (one : Routes replica app model)
    (two : Routes replica app other) : model = other := by
  obtain ⟨handles,found,within⟩ := one
  obtain ⟨others,stored,listed⟩ := two
  by_contra differs
  have apart : replica.models.entries.Pairwise fun one two => List.Disjoint one.2 two.2 :=
    (List.nodup_flatMap.mp tidy.once).2
  have symmetric : Std.Symm fun one two : String × List String => List.Disjoint one.2 two.2 :=
    ⟨fun _ _ disjoint _ here there => disjoint there here⟩
  have disjoint := apart.forall (Dict.get_some_mem found) (Dict.get_some_mem stored) (fun same => differs (congrArg Prod.fst same))
  exact disjoint within listed

theorem registerDeployment_routes (absent : app ∉ replica.routed) {other on : String} :
    Routes (registerDeployment replica app model) other on ↔ Routes replica other on ∨ other = app ∧ on = model := by
  unfold registerDeployment Routes
  cases held : replica.models.get? model with
  | none =>
      simp only [Dict.get_set]
      constructor
      · rintro ⟨handles,found,within⟩
        split at found
        · rename_i same
          cases found
          exact .inr ⟨List.mem_singleton.mp within,same.symm⟩
        · exact .inl ⟨handles,found,within⟩
      · rintro (⟨handles,found,within⟩ | ⟨rfl,rfl⟩)
        · refine ⟨handles,?_,within⟩
          rw [if_neg]
          · exact found
          · rintro rfl
            rw [held] at found
            cases found
        · exact ⟨[other],if_pos rfl,List.mem_singleton_self other⟩
  | some handles =>
      have free : app ∉ handles := fun within => absent (routed_routes.mpr ⟨model,handles,held,within⟩)
      simp only [if_neg free,Dict.get_set]
      constructor
      · rintro ⟨others,found,within⟩
        split at found
        · rename_i same
          cases found
          rcases List.mem_append.mp within with before | now
          · exact .inl ⟨handles,same ▸ held,before⟩
          · exact .inr ⟨List.mem_singleton.mp now,same.symm⟩
        · exact .inl ⟨others,found,within⟩
      · rintro (⟨others,found,within⟩ | ⟨rfl,rfl⟩)
        · by_cases same : model = on
          · rw [← same,held] at found
            cases found
            exact ⟨_,if_pos same,List.mem_append_left _ within⟩
          · exact ⟨others,by rw [if_neg same]; exact found,within⟩
        · exact ⟨_,if_pos rfl,List.mem_append_right _ (List.mem_singleton_self other)⟩

theorem registerDeployment_tidy (tidy : Tidy replica) (absent : app ∉ replica.routed) :
    Tidy (registerDeployment replica app model) := by
  have once := (registerDeployment_routed model absent).nodup_iff.mpr (List.nodup_cons.mpr ⟨absent,tidy.once⟩)
  constructor
  · exact once
  · unfold registerDeployment
    cases held : replica.models.get? model with
    | none =>
        have fresh : model ∉ replica.models.entries.map Prod.fst := by
          rw [← Dict.get_isSome,held]
          nofun
        simp only [Dict.set,Dict.put_absent _ fresh,List.map_append,tidy.cards]
        rfl
    | some handles =>
        have same : (Dict.put model (if app ∈ handles then handles else handles ++ [app]) replica.models.entries).map
            Prod.fst = replica.models.entries.map Prod.fst :=
          Dict.put_map Prod.fst replica.models.distinct (Dict.get_some_mem held) rfl
        exact tidy.cards.trans same.symm
  · intro on handles found
    unfold registerDeployment at found
    cases held : replica.models.get? model with
    | none =>
        simp only [held,Dict.get_set] at found
        split at found
        · cases found
          exact List.cons_ne_nil _ _
        · exact tidy.served on handles found
    | some before =>
        simp only [held,Dict.get_set] at found
        split at found
        · cases found
          split
          · exact tidy.served model before held
          · simp
        · exact tidy.served on handles found

theorem dropApp_routes (tidy : Tidy replica) {other on : String} :
    Routes (dropApp replica app) other on ↔ Routes replica other on ∧ other ≠ app := by
  unfold dropApp
  cases found : replica.models.entries.find? (app ∈ ·.2) with
  | none =>
      simp only
      refine (and_iff_left_of_imp ?_).symm
      rintro ⟨handles,held,within⟩ rfl
      have missed := List.find?_eq_none.mp found _ (Dict.get_some_mem held)
      exact absurd (decide_eq_true within) missed
  | some entry =>
      obtain ⟨model,handles⟩ := entry
      have held := Dict.mem_get_some (List.mem_of_find?_eq_some found)
      have within : app ∈ handles := by simpa using List.find?_some found
      have alone : ∀ {on others}, replica.models.get? on = some others → app ∈ others → model = on :=
        fun stored listed => tidy.single ⟨handles,held,within⟩ ⟨_,stored,listed⟩
      -- A model's handles without the app: the app is in no others, and there once.
      have nodup : handles.Nodup := (List.nodup_flatMap.mp tidy.once).1 _ (Dict.get_some_mem held)
      have erased : ∀ {other}, other ∈ handles.erase app ↔ other ∈ handles ∧ other ≠ app := by
        intro other
        rw [nodup.mem_erase_iff]
        exact And.comm
      dsimp only
      unfold Routes
      split
      · rename_i last
        simp only [Dict.get_erase]
        constructor
        · rintro ⟨others,stored,listed⟩
          split at stored
          · cases stored
          · rename_i differs
            refine ⟨⟨others,stored,listed⟩,?_⟩
            rintro rfl
            exact differs (alone stored listed)
        · rintro ⟨⟨others,stored,listed⟩,differs⟩
          refine ⟨others,?_,listed⟩
          rw [if_neg]
          · exact stored
          · rintro rfl
            rw [held] at stored
            cases stored
            have left := erased.mpr ⟨listed,differs⟩
            rw [last] at left
            cases left
      · simp only [Dict.get_set]
        constructor
        · rintro ⟨others,stored,listed⟩
          split at stored
          · rename_i same
            cases stored
            obtain ⟨listed,differs⟩ := erased.mp listed
            exact ⟨⟨handles,same ▸ held,listed⟩,differs⟩
          · rename_i apart
            refine ⟨⟨others,stored,listed⟩,?_⟩
            rintro rfl
            exact apart (alone stored listed)
        · rintro ⟨⟨others,stored,listed⟩,differs⟩
          by_cases same : model = on
          · rw [← same,held] at stored
            cases stored
            exact ⟨_,if_pos same,erased.mpr ⟨listed,differs⟩⟩
          · exact ⟨others,by rw [if_neg same]; exact stored,listed⟩

theorem dropApp_tidy (tidy : Tidy replica) : Tidy (dropApp replica app) := by
  refine ⟨(dropApp_parts app tidy.once).1,?_,?_⟩
  · unfold dropApp
    split
    · exact tidy.cards
    · rename_i model handles found
      have held := List.mem_of_find?_eq_some found
      split
      · simp only [Dict.erase,Dict.select,tidy.cards,List.filter_map]
        rfl
      · have same : (Dict.put model (handles.erase app) replica.models.entries).map Prod.fst =
            replica.models.entries.map Prod.fst := Dict.put_map Prod.fst replica.models.distinct held rfl
        exact tidy.cards.trans same.symm
  · intro on others stored
    unfold dropApp at stored
    split at stored
    · exact tidy.served on others stored
    · rename_i model handles found
      split at stored
      · simp only [Dict.get_erase] at stored
        split at stored
        · cases stored
        · exact tidy.served on others stored
      · rename_i more
        simp only [Dict.get_set] at stored
        split at stored
        · cases stored
          exact more
        · exact tidy.served on others stored

theorem dropApps_routes (names : List String) (tidy : Tidy replica) : Tidy (dropApps replica names) ∧
    ∀ other on, Routes (dropApps replica names) other on ↔ Routes replica other on ∧ other ∉ names := by
  induction names generalizing replica with
  | nil => exact ⟨tidy,by simp [dropApps]⟩
  | cons app rest ih =>
      obtain ⟨still,routes⟩ := ih (dropApp_tidy tidy)
      refine ⟨still,fun other on => (routes other on).trans ?_⟩
      rw [dropApp_routes tidy,List.mem_cons,not_or,and_assoc]

theorem registerAll_routes (unresolved failed : List String) {desired : List (String × String)} (tidy : Tidy replica)
    (apart : (desired.map Prod.fst).Nodup) (fresh : ∀ entry ∈ desired, entry.1 ∉ replica.routed) :
    ∃ after, desired.foldl (fun (replica,failed) entry =>
        if entry.1 ∈ unresolved then (replica,failed ++ [entry.1]) else (registerDeployment replica entry.1 entry.2,failed))
        (replica,failed) = (after,failed ++ (desired.map Prod.fst).filter (· ∈ unresolved)) ∧
      Tidy after ∧ ∀ other on, Routes after other on ↔
        Routes replica other on ∨ (other,on) ∈ desired ∧ other ∉ unresolved := by
  induction desired generalizing replica failed with
  | nil => exact ⟨replica,by simp,tidy,fun other on => by simp⟩
  | cons entry rest ih =>
      obtain ⟨new,others⟩ := List.nodup_cons.mp apart
      have unrouted := fresh entry List.mem_cons_self
      simp only [List.foldl_cons]
      by_cases deferred : entry.1 ∈ unresolved
      · simp only [if_pos deferred]
        obtain ⟨after,ran,still,routes⟩ := ih (failed ++ [entry.1]) tidy others
          (fun later there => fresh later (List.mem_cons_of_mem _ there))
        refine ⟨after,?_,still,?_⟩
        · rw [ran,List.map_cons,List.filter_cons_of_pos (by simpa using deferred),List.append_assoc]
          rfl
        · intro other on
          rw [routes other on,List.mem_cons]
          refine or_congr_right (and_congr_left fun resolved => (or_iff_right ?_).symm)
          rintro rfl
          exact resolved deferred
      · simp only [if_neg deferred]
        have tidy_ : Tidy (registerDeployment replica entry.1 entry.2) := registerDeployment_tidy tidy unrouted
        obtain ⟨after,ran,still,routes⟩ := ih failed tidy_ others (by
          intro later there routed
          rcases List.mem_cons.mp ((registerDeployment_routed entry.2 unrouted).mem_iff.mp routed) with same | before
          · exact new (same ▸ List.mem_map.mpr ⟨later,there,rfl⟩)
          · exact fresh later (List.mem_cons_of_mem _ there) before)
        refine ⟨after,?_,still,?_⟩
        · rw [ran,List.map_cons,List.filter_cons_of_neg (by simpa using deferred)]
        · intro other on
          rw [routes other on,registerDeployment_routes unrouted,List.mem_cons,or_assoc]
          refine or_congr_right ?_
          constructor
          · rintro (⟨rfl,rfl⟩ | ⟨listed,resolved⟩)
            · exact ⟨.inl rfl,deferred⟩
            · exact ⟨.inr listed,resolved⟩
          · rintro ⟨same | listed,resolved⟩
            · exact .inl ⟨congrArg Prod.fst same,congrArg Prod.snd same⟩
            · exact .inr ⟨listed,resolved⟩

-- All that `_apply_routing` leaves: what it held and the snapshot names, and what is new
-- in the snapshot and resolves. The rest of the new apps have failed.
theorem applyRouting_table (unresolved : List String) (desired : Dict String String) (tidy : Tidy replica) :
    Tidy (applyRouting replica unresolved desired).1 ∧
    (∀ app model, Routes (applyRouting replica unresolved desired).1 app model ↔
      Routes replica app model ∧ (desired.get? app).isSome ∨
        desired.get? app = some model ∧ app ∉ replica.routed ∧ app ∉ unresolved) ∧
    ∀ app, app ∈ (applyRouting replica unresolved desired).2 ↔
      (desired.get? app).isSome ∧ app ∉ replica.routed ∧ app ∈ unresolved := by
  have fresh : ∀ entry ∈ desired.entries.filter (·.1 ∉ replica.routed), entry.1 ∉ replica.routed := by
    intro entry there
    simpa using (List.mem_filter.mp there).2
  have apart : ((desired.entries.filter (·.1 ∉ replica.routed)).map Prod.fst).Nodup :=
    (List.filter_sublist.map Prod.fst).nodup desired.distinct
  obtain ⟨after,ran,still,registered⟩ := registerAll_routes unresolved [] tidy apart fresh
  have named : ∀ {app model}, (app,model) ∈ desired.entries ↔ desired.get? app = some model :=
    ⟨Dict.mem_get_some,Dict.get_some_mem⟩
  unfold applyRouting registerAll
  simp only [ran,List.nil_append]
  refine ⟨(dropApps_routes _ still).1,?_,?_⟩
  · intro app model
    rw [(dropApps_routes _ still).2,registered,List.mem_filter,List.mem_filter,named,not_and,Option.isNone_iff_eq_none,
      decide_eq_true_eq]
    constructor
    · rintro ⟨held | ⟨⟨found,new⟩,resolved⟩,kept⟩
      · have wanted := kept (routed_routes.mpr ⟨model,held⟩)
        exact .inl ⟨held,Option.isSome_iff_ne_none.mpr wanted⟩
      · exact .inr ⟨found,new,resolved⟩
    · rintro (⟨held,wanted⟩ | ⟨found,new,resolved⟩)
      · exact ⟨.inl held,fun _ => Option.isSome_iff_ne_none.mp wanted⟩
      · exact ⟨.inr ⟨⟨found,new⟩,resolved⟩,fun routed => absurd routed new⟩
  · intro app
    rw [List.mem_filter,List.mem_map]
    constructor
    · rintro ⟨⟨⟨app,model⟩,there,rfl⟩,deferred⟩
      obtain ⟨listed,new⟩ := List.mem_filter.mp there
      rw [Dict.mem_get_some listed]
      exact ⟨rfl,by simpa using new,by simpa using deferred⟩
    · rintro ⟨wanted,new,deferred⟩
      obtain ⟨model,found⟩ := Option.isSome_iff_exists.mp wanted
      refine ⟨⟨(app,model),List.mem_filter.mpr ⟨named.mpr found,by simpa using new⟩,rfl⟩,by simpa using deferred⟩

theorem start_tidy : Tidy Replica.start := ⟨List.nodup_nil,rfl,nofun⟩

-- A snapshot's table is applied whether or not the snapshot fails.
theorem applySnapshot_tables (replica : Replica) (unresolved : List String) (snapshot : Snapshot) :
    (applySnapshot replica unresolved snapshot).models =
        (applyRouting {replica with expected := snapshot.expected} unresolved snapshot.models).1.models ∧
      (applySnapshot replica unresolved snapshot).cards =
        (applyRouting {replica with expected := snapshot.expected} unresolved snapshot.models).1.cards := by
  unfold applySnapshot
  simp only
  split <;> exact ⟨rfl,rfl⟩

end

-- The replica after the snapshots it has pulled, each with the apps that did not resolve then.
def held (pulled : List (List String × Snapshot)) : Replica :=
  pulled.foldl (fun replica pull => applySnapshot replica pull.1 pull.2) Replica.start

theorem held_tidy (pulled : List (List String × Snapshot)) : Tidy (held pulled) := by
  have all : ∀ replica, Tidy replica →
      Tidy (pulled.foldl (fun replica pull => applySnapshot replica pull.1 pull.2) replica) := by
    induction pulled with
    | nil => exact fun replica tidy => tidy
    | cons pull rest ih =>
        intro replica tidy
        apply ih
        obtain ⟨models,cards⟩ := applySnapshot_tables replica pull.1 pull.2
        have tidy_ : Tidy {replica with expected := pull.2.expected} := ⟨tidy.once,tidy.cards,tidy.served⟩
        obtain ⟨once,listed,served⟩ := (applyRouting_table pull.1 pull.2.models tidy_).1
        refine ⟨?_,?_,?_⟩
        · unfold Replica.routed at once ⊢
          rw [models]
          exact once
        · rw [models,cards]
          exact listed
        · rw [models]
          exact served
  exact all Replica.start start_tidy

-- No model loses its last handle to the switch, and the table is the snapshot's but for
-- the apps that failed.
structure Switches (before after : Replica) (desired : Dict String String) (failed : List String) : Prop where
  kept : ∀ model, (∃ app, Routes before app model) → (∃ app, desired.get? app = some model) →
    ∃ app, Routes after app model
  known : ∀ app ∈ after.routed, app ∈ before.routed ∨ (desired.get? app).isSome
  routed : ∀ app model, desired.get? app = some model → app ∉ failed → Routes after app model
  listed : ∀ model, model ∈ after.cards ↔ (after.models.get? model).isSome
  once : after.cards.Nodup

-- The apps that the table and the snapshot share have one model in both, and each model
-- they share gets some app that is routed already or that resolves.
def Covers (before : Replica) (desired : Dict String String) (unresolved : List String) : Prop :=
  (∀ app model, desired.get? app = some model → app ∈ before.routed → Routes before app model) ∧
  ∀ model, (∃ app, Routes before app model) → (∃ app, desired.get? app = some model) →
    ∃ app, desired.get? app = some model ∧ (app ∈ before.routed ∨ app ∉ unresolved)

-- The switch to a snapshot is without a gap exactly where the snapshot covers the table.
theorem switch_covers (pulled : List (List String × Snapshot)) (desired : Dict String String) (unresolved : List String) :
    Switches (held pulled) (applyRouting (held pulled) unresolved desired).1 desired
        (applyRouting (held pulled) unresolved desired).2 ↔
      Covers (held pulled) desired unresolved := by
  have tidy := held_tidy pulled
  generalize held pulled = before at *
  obtain ⟨still,routes,failed⟩ := applyRouting_table unresolved desired tidy
  generalize applyRouting before unresolved desired = applied at *
  obtain ⟨after,names⟩ := applied
  simp only at still routes failed ⊢
  constructor
  · intro switches
    have agree : ∀ app model, desired.get? app = some model → app ∈ before.routed → Routes before app model := by
      intro app model wanted there
      have unfailed : app ∉ names := fun fails => ((failed app).mp fails).2.1 there
      rcases (routes app model).mp (switches.routed app model wanted unfailed) with ⟨old,_⟩ | ⟨_,new,_⟩
      · exact old
      · exact absurd there new
    refine ⟨agree,?_⟩
    intro model present wanted
    obtain ⟨app,now⟩ := switches.kept model present wanted
    rcases (routes app model).mp now with ⟨old,named⟩ | ⟨found,_,resolved⟩
    · obtain ⟨other,found⟩ := Option.isSome_iff_exists.mp named
      have there := routed_routes.mpr ⟨model,old⟩
      have same : other = model := tidy.single (agree app other found there) old
      exact ⟨app,same ▸ found,.inl there⟩
    · exact ⟨app,found,.inr resolved⟩
  · rintro ⟨agree,covered⟩
    constructor
    · intro model present wanted
      obtain ⟨app,found,there | resolved⟩ := covered model present wanted
      · exact ⟨app,(routes app model).mpr (.inl ⟨agree app model found there,by rw [found]; rfl⟩)⟩
      · by_cases there : app ∈ before.routed
        · exact ⟨app,(routes app model).mpr (.inl ⟨agree app model found there,by rw [found]; rfl⟩)⟩
        · exact ⟨app,(routes app model).mpr (.inr ⟨found,there,resolved⟩)⟩
    · intro app there
      obtain ⟨model,now⟩ := routed_routes.mp there
      rcases (routes app model).mp now with ⟨old,_⟩ | ⟨found,_⟩
      · exact .inl (routed_routes.mpr ⟨model,old⟩)
      · exact .inr (by rw [found]; rfl)
    · intro app model found unfailed
      by_cases there : app ∈ before.routed
      · exact (routes app model).mpr (.inl ⟨agree app model found there,by rw [found]; rfl⟩)
      · refine (routes app model).mpr (.inr ⟨found,there,?_⟩)
        intro deferred
        exact unfailed ((failed app).mpr ⟨by rw [found]; rfl,there,deferred⟩)
    · intro model
      rw [still.cards,Dict.get_isSome]
    · rw [still.cards]
      exact after.models.distinct

-- A model's old app, and a snapshot that has its new one instead.
def servesOld : List (List String × Snapshot) := [([],⟨⟨[("gw.chat-old","chat")],by decide⟩,["chat"],1,some 1⟩)]

def namesNew : Dict String String := ⟨[("gw.chat-new","chat")],by decide⟩

-- While the new app does not resolve, the old one is dropped all the same.
theorem switch_loses_model : ¬Switches (held servesOld) (applyRouting (held servesOld) ["gw.chat-new"] namesNew).1
    namesNew (applyRouting (held servesOld) ["gw.chat-new"] namesNew).2 := by
  intro switches
  obtain ⟨app,handles,found,_⟩ := switches.kept "chat" ⟨"gw.chat-old",["gw.chat-old"],by decide +kernel,by decide⟩
    ⟨"gw.chat-new",by decide +kernel⟩
  have gone : (applyRouting (held servesOld) ["gw.chat-new"] namesNew).1.models.get? "chat" = none := by decide +kernel
  rw [gone] at found
  cases found

end Modelship.Gateway
