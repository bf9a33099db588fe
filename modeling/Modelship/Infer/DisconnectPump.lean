import Modelship.Infer.Disconnects

namespace Modelship.Infer.Watching
open Foundation

-- Where the pump's task is: about to look at the watched ids, with a call to the registry
-- that is yet to be served, with its answer on the way (and when it was given), or asleep.
inductive Pump where
  | starting
  | asked (requestIds : List String)
  | told (answered : Int) (disconnected : List String)
  | asleep

-- One replica and the registry. An event is the number of its making; `sets` is what the
-- gateways had recorded and `answers` what the registry has reported, each with its time;
-- `fired` are the events fired, with the time of the answer that each was fired for.
structure World where
  clock : Int
  registry : DisconnectStore
  sets : List (String × Int)
  answers : List (Int × List String)
  made : List String
  watched : Dict String Nat
  fired : List (Nat × Int)
  pump : Option Pump

inductive Act where
  | pass (time : Nat)
  | disconnect (requestId : String)
  | restart
  | watch (requestId : String)
  | unwatch (requestId : String)
  | turn
  | answer
  | fail
  | deliver

namespace World

def start (ttl : Int) : World := ⟨0,.start ttl,[],[],[],.empty,[],none⟩

-- `_watch_disconnect`: the event of an id that is watched already is replaced.
def watchDisconnect (w : World) (requestId : String) : World :=
  {w with
    made := w.made ++ [requestId]
    watched := w.watched.set requestId w.made.length
    pump := w.pump.or (some .starting)}

-- `_unwatch_disconnect`: with nothing left to poll the pump is cancelled.
def unwatchDisconnect (w : World) (requestId : String) : World :=
  let watched := w.watched.erase requestId
  {w with watched := watched,pump := if watched.entries = [] then none else w.pump}

-- The pump's loop, which ends if it finds nothing to watch.
def look (w : World) : World :=
  {w with pump := if w.watched.entries = [] then none else some (.asked (w.watched.entries.map Prod.fst))}

def next (w : World) : Act → Option World
  | .pass time => some {w with clock := w.clock + time}
  | .disconnect requestId => some {w with
      registry := w.registry.set requestId w.clock
      sets := w.sets ++ [(requestId,w.clock)]}
  | .restart => some {w with registry := .start w.registry.ttl}
  | .watch requestId => some (w.watchDisconnect requestId)
  | .unwatch requestId => some (w.unwatchDisconnect requestId)
  | .turn => match w.pump with
    | some .starting | some .asleep => some w.look
    | _ => none
  | .answer => match w.pump with
    | some (.asked requestIds) =>
      let (registry,disconnected) := w.registry.isSetMany w.clock requestIds
      some {w with
        registry := registry
        answers := w.answers ++ [(w.clock,disconnected)]
        pump := some (.told w.clock disconnected)}
    | _ => none
  | .fail => match w.pump with
    | some (.asked _) | some (.told _ _) => some {w with pump := some (.told w.clock [])}
    | _ => none
  | .deliver => match w.pump with
    | some (.told answered disconnected) => some {w with
        fired := w.fired ++ (disconnected.filterMap w.watched.get?).map (·,answered)
        pump := some .asleep}
    | _ => none

-- What the registry answered at that time has the id, of which a set was then within its ttl.
def Reported (w : World) (requestId : String) (answered : Int) : Prop :=
  ∃ disconnected set, (answered,disconnected) ∈ w.answers ∧ requestId ∈ disconnected ∧
    (requestId,set) ∈ w.sets ∧ set ≤ answered ∧ answered < set + w.registry.ttl

structure Sound (w : World) : Prop where
  alive : w.pump = none ↔ w.watched.entries = []
  own : ∀ requestId event, w.watched.get? requestId = some event → w.made[event]? = some requestId
  recorded : ∀ requestId deadline, w.registry.deadlines.get? requestId = some deadline →
    (requestId,deadline - w.registry.ttl) ∈ w.sets
  past : ∀ entry ∈ w.sets, entry.2 ≤ w.clock
  told : ∀ answered disconnected, w.pump = some (.told answered disconnected) →
    ∀ requestId ∈ disconnected, w.Reported requestId answered
  real : ∀ entry ∈ w.fired, ∃ requestId, w.made[entry.1]? = some requestId ∧ w.Reported requestId entry.2

-- Everything that a step can do.
inductive Goes (w : World) : Act → World → Prop where
  | pass (time) : Goes w (.pass time) {w with clock := w.clock + time}
  | disconnect (requestId) : Goes w (.disconnect requestId) {w with
      registry := w.registry.set requestId w.clock
      sets := w.sets ++ [(requestId,w.clock)]}
  | restart : Goes w .restart {w with registry := .start w.registry.ttl}
  | watch (requestId) : Goes w (.watch requestId) (w.watchDisconnect requestId)
  | unwatch (requestId) : Goes w (.unwatch requestId) (w.unwatchDisconnect requestId)
  | turn (going : w.pump ≠ none) : Goes w .turn w.look
  | answer (requestIds) (asked : w.pump = some (.asked requestIds)) : Goes w .answer {w with
      registry := (w.registry.isSetMany w.clock requestIds).1
      answers := w.answers ++ [(w.clock,(w.registry.isSetMany w.clock requestIds).2)]
      pump := some (.told w.clock (w.registry.isSetMany w.clock requestIds).2)}
  | fail (going : w.pump ≠ none) : Goes w .fail {w with pump := some (.told w.clock [])}
  | deliver (answered disconnected) (told : w.pump = some (.told answered disconnected)) : Goes w .deliver {w with
      fired := w.fired ++ (disconnected.filterMap w.watched.get?).map (·,answered)
      pump := some .asleep}

-- What a step leaves: the sets, the answers, the time and the makings only grow.
structure Grows (w v : World) : Prop where
  sets : ∀ entry ∈ w.sets, entry ∈ v.sets
  answers : ∀ entry ∈ w.answers, entry ∈ v.answers
  clock : w.clock ≤ v.clock
  ttl : v.registry.ttl = w.registry.ttl
  made : ∀ (event : Nat) requestId, w.made[event]? = some requestId → v.made[event]? = some requestId

section
variable {w v : World}

theorem next_goes {act : Act} (taken : w.next act = some v) : Goes w act v := by
  have there : ∀ {pump : Pump}, w.pump = some pump → w.pump ≠ none := by
    intro pump same none_
    rw [same] at none_
    cases none_
  cases act with
  | pass time => cases taken; exact .pass time
  | disconnect requestId => cases taken; exact .disconnect requestId
  | restart => cases taken; exact .restart
  | watch requestId => cases taken; exact .watch requestId
  | unwatch requestId => cases taken; exact .unwatch requestId
  | turn =>
      simp only [next] at taken
      split at taken
      · rename_i pump
        cases taken
        exact .turn (there pump)
      · rename_i pump
        cases taken
        exact .turn (there pump)
      · cases taken
  | answer =>
      simp only [next] at taken
      split at taken
      · rename_i requestIds pump
        cases taken
        exact .answer requestIds pump
      · cases taken
  | fail =>
      simp only [next] at taken
      split at taken
      · rename_i pump
        cases taken
        exact .fail (there pump)
      · rename_i pump
        cases taken
        exact .fail (there pump)
      · cases taken
  | deliver =>
      simp only [next] at taken
      split at taken
      · rename_i answered disconnected pump
        cases taken
        exact .deliver answered disconnected pump
      · cases taken

theorem Grows.refl (w : World) : Grows w w :=
  ⟨fun _ there => there,fun _ there => there,Int.le_refl _,rfl,fun _ _ made => made⟩

theorem next_grows {act : Act} (taken : w.next act = some v) : Grows w v := by
  have same := Grows.refl w
  cases next_goes taken with
  | pass time => exact ⟨same.sets,same.answers,by dsimp only; omega,rfl,same.made⟩
  | disconnect requestId => exact ⟨fun _ there => List.mem_append_left _ there,same.answers,same.clock,rfl,same.made⟩
  | restart => exact ⟨same.sets,same.answers,same.clock,rfl,same.made⟩
  | watch requestId =>
      refine ⟨same.sets,same.answers,same.clock,rfl,?_⟩
      intro event requestId made
      rw [watchDisconnect,List.getElem?_append_left (List.getElem?_eq_some_iff.mp made).1]
      exact made
  | answer requestIds asked =>
      exact ⟨same.sets,fun _ there => List.mem_append_left _ there,same.clock,DisconnectStore.isSetMany_ttl _ _,same.made⟩
  | _ => exact ⟨same.sets,same.answers,same.clock,same.ttl,same.made⟩

theorem Grows.reported (grows : Grows w v) {requestId : String} {answered : Int} (reported : w.Reported requestId answered) :
    v.Reported requestId answered := by
  obtain ⟨disconnected,set,given,listed,there,before,kept⟩ := reported
  exact ⟨disconnected,set,grows.answers _ given,listed,grows.sets _ there,before,grows.ttl ▸ kept⟩

-- What was so of the past is so after any step.
theorem Sound.own_later (sound : w.Sound) (grows : Grows w v) :
    ∀ requestId event, w.watched.get? requestId = some event → v.made[event]? = some requestId :=
  fun requestId event found => grows.made _ _ (sound.own requestId event found)

theorem Sound.told_later (sound : w.Sound) (grows : Grows w v) :
    ∀ answered disconnected, w.pump = some (.told answered disconnected) →
      ∀ requestId ∈ disconnected, v.Reported requestId answered :=
  fun answered disconnected pump requestId there => grows.reported (sound.told answered disconnected pump requestId there)

theorem Sound.real_later (sound : w.Sound) (grows : Grows w v) :
    ∀ entry ∈ w.fired, ∃ requestId, v.made[entry.1]? = some requestId ∧ v.Reported requestId entry.2 := by
  intro entry there
  obtain ⟨requestId,made,reported⟩ := sound.real entry there
  exact ⟨requestId,grows.made _ _ made,grows.reported reported⟩

theorem start_sound (ttl : Int) : (start ttl).Sound := by
  constructor
  · exact ⟨fun _ => rfl,fun _ => rfl⟩
  · intro requestId event found
    cases found
  · intro requestId deadline found
    cases found
  · intro entry there
    cases there
  · intro answered disconnected pump
    cases pump
  · intro entry there
    cases there

theorem pass_sound (sound : w.Sound) (time : Nat) (grows : Grows w {w with clock := w.clock + time}) :
    Sound {w with clock := w.clock + time} := by
  refine ⟨sound.alive,sound.own,sound.recorded,?_,sound.told_later grows,sound.real_later grows⟩
  intro entry there
  exact Int.le_trans (sound.past entry there) grows.clock

theorem disconnect_sound (sound : w.Sound) (requestId : String)
    (grows : Grows w {w with registry := w.registry.set requestId w.clock,sets := w.sets ++ [(requestId,w.clock)]}) :
    Sound {w with registry := w.registry.set requestId w.clock,sets := w.sets ++ [(requestId,w.clock)]} := by
  refine ⟨sound.alive,sound.own,?_,?_,sound.told_later grows,sound.real_later grows⟩
  · intro other deadline held
    have kept := DisconnectStore.set_held held
    split at kept
    · rename_i same
      rw [kept,← same]
      simp [DisconnectStore.set,DisconnectStore.evictExpired]
    · exact List.mem_append_left _ (sound.recorded other deadline kept.1)
  · intro entry there
    rcases List.mem_append.mp there with earlier | new
    · exact sound.past entry earlier
    · cases List.mem_singleton.mp new
      exact Int.le_refl _

theorem set_entries {requestId : String} {event : Nat} (watched : Dict String Nat) : (watched.set requestId event).entries ≠ [] := by
  intro empty
  have there := Dict.get_some_mem (Dict.get_set_self watched requestId event)
  rw [empty] at there
  cases there

-- A watch starts the pump if there is none, and else leaves it where it is.
theorem watch_pump {pump : Pump} (requestId : String) (now : (w.watchDisconnect requestId).pump = some pump)
    (started : pump ≠ .starting) : w.pump = some pump := by
  cases before : w.pump with
  | none =>
      simp only [watchDisconnect,before,Option.none_or,Option.some.injEq] at now
      exact absurd now.symm started
  | some state => simpa [watchDisconnect,before] using now

theorem watch_sound (sound : w.Sound) (requestId : String) (grows : Grows w (w.watchDisconnect requestId)) :
    (w.watchDisconnect requestId).Sound := by
  refine ⟨?_,?_,sound.recorded,sound.past,?_,sound.real_later grows⟩
  · constructor
    · intro none_
      simp [watchDisconnect] at none_
    · intro empty
      exact absurd empty (set_entries _)
  · intro other event found
    simp only [watchDisconnect,Dict.get_set] at found
    split at found
    · rename_i same
      cases found
      rw [← same]
      simp [watchDisconnect]
    · exact sound.own_later grows other event found
  · intro answered disconnected pump
    exact sound.told_later grows answered disconnected (watch_pump requestId pump (by simp))

theorem unwatch_pump {pump : Pump} (requestId : String) (now : (w.unwatchDisconnect requestId).pump = some pump) :
    w.pump = some pump := by
  simp only [unwatchDisconnect] at now
  split at now
  · cases now
  · exact now

theorem unwatch_sound (sound : w.Sound) (requestId : String) (grows : Grows w (w.unwatchDisconnect requestId)) :
    (w.unwatchDisconnect requestId).Sound := by
  refine ⟨?_,?_,sound.recorded,sound.past,?_,sound.real_later grows⟩
  · simp only [unwatchDisconnect]
    split
    · rename_i empty
      exact ⟨fun _ => empty,fun _ => rfl⟩
    · rename_i left
      refine ⟨fun none_ => ?_,fun empty => absurd empty left⟩
      have empty := sound.alive.mp none_
      simp [Dict.erase,Dict.select,empty] at left
  · intro other event found
    simp only [unwatchDisconnect,Dict.get_erase] at found
    split at found
    · cases found
    · exact sound.own other event found
  · intro answered disconnected pump
    exact sound.told_later grows answered disconnected (unwatch_pump requestId pump)

theorem look_sound (sound : w.Sound) (going : w.pump ≠ none) (grows : Grows w w.look) : w.look.Sound := by
  have left : w.watched.entries ≠ [] := fun empty => going (sound.alive.mpr empty)
  refine ⟨?_,sound.own,sound.recorded,sound.past,?_,sound.real_later grows⟩
  · simp [look,left]
  · intro answered disconnected pump
    simp [look,left] at pump

-- The registry reports an id only while it holds a deadline that is not past.
theorem isSetMany_reported (sound : w.Sound) {requestIds : List String} {requestId : String}
    (there : requestId ∈ (w.registry.isSetMany w.clock requestIds).2) :
    ∃ set, (requestId,set) ∈ w.sets ∧ set ≤ w.clock ∧ w.clock < set + w.registry.ttl := by
  rw [(DisconnectStore.isSetMany_visible _ (Int.le_refl w.clock) requestIds).1] at there
  obtain ⟨deadline,held,live⟩ := DisconnectStore.visible_held (List.mem_filter.mp there).2
  have recorded := sound.recorded requestId deadline held
  exact ⟨deadline - w.registry.ttl,recorded,sound.past _ recorded,by omega⟩

theorem answer_sound (sound : w.Sound) {requestIds : List String} (asked : w.pump = some (.asked requestIds))
    (taken : v = {w with
      registry := (w.registry.isSetMany w.clock requestIds).1
      answers := w.answers ++ [(w.clock,(w.registry.isSetMany w.clock requestIds).2)]
      pump := some (.told w.clock (w.registry.isSetMany w.clock requestIds).2)}) (grows : Grows w v) : v.Sound := by
  subst taken
  refine ⟨?_,sound.own,?_,sound.past,?_,sound.real_later grows⟩
  · have left := sound.alive
    rw [asked] at left
    simpa using left
  · intro requestId deadline held
    rw [DisconnectStore.isSetMany_ttl]
    exact sound.recorded requestId deadline (DisconnectStore.isSetMany_held held)
  · intro answered disconnected pump requestId there
    cases pump
    obtain ⟨set,recorded,before,kept⟩ := isSetMany_reported sound there
    refine ⟨_,set,List.mem_append_right _ List.mem_cons_self,there,recorded,before,?_⟩
    rw [DisconnectStore.isSetMany_ttl]
    exact kept

theorem fail_sound (sound : w.Sound) (going : w.pump ≠ none) : Sound {w with pump := some (.told w.clock [])} := by
  refine ⟨?_,sound.own,sound.recorded,sound.past,?_,sound.real⟩
  · exact ⟨fun none_ => absurd none_ (Option.some_ne_none _),fun empty => absurd (sound.alive.mpr empty) going⟩
  · intro answered disconnected pump requestId there
    cases pump
    cases there

theorem deliver_sound (sound : w.Sound) {answered : Int} {disconnected : List String}
    (told : w.pump = some (.told answered disconnected)) : Sound {w with
      fired := w.fired ++ (disconnected.filterMap w.watched.get?).map (·,answered)
      pump := some .asleep} := by
  refine ⟨?_,sound.own,sound.recorded,sound.past,?_,?_⟩
  · have left := sound.alive
    rw [told] at left
    simpa using left
  · intro other ids pump
    cases pump
  · intro entry there
    rcases List.mem_append.mp there with earlier | new
    · exact sound.real entry earlier
    · obtain ⟨event,listed,rfl⟩ := List.mem_map.mp new
      obtain ⟨requestId,named,found⟩ := List.mem_filterMap.mp listed
      exact ⟨requestId,sound.own requestId event found,sound.told answered disconnected told requestId named⟩

theorem next_sound {act : Act} (sound : w.Sound) (taken : w.next act = some v) : v.Sound := by
  have grows := next_grows taken
  cases next_goes taken with
  | pass time => exact pass_sound sound time grows
  | disconnect requestId => exact disconnect_sound sound requestId grows
  | restart =>
      refine ⟨sound.alive,sound.own,?_,sound.past,sound.told_later grows,sound.real_later grows⟩
      intro requestId deadline held
      cases held
  | watch requestId => exact watch_sound sound requestId grows
  | unwatch requestId => exact unwatch_sound sound requestId grows
  | turn going => exact look_sound sound going grows
  | answer requestIds asked => exact answer_sound sound asked rfl grows
  | fail going => exact fail_sound sound going
  | deliver answered disconnected told => exact deliver_sound sound told

-- In every order of watches, disconnects, polls and restarts of the registry, an event is
-- fired only for an answer of the registry that named its id, and that was given within the
-- ttl of a recorded disconnect of that id; and the pump runs just as long as there is
-- something to watch.
theorem aborts_are_real {ttl : Int} {acts : List Act} (ran : execute next (start ttl) acts = some w) :
    (∀ entry ∈ w.fired, ∃ requestId, w.made[entry.1]? = some requestId ∧ w.Reported requestId entry.2) ∧
      (w.pump = none ↔ w.watched.entries = []) := by
  have sound : w.Sound := execute_invariant (fun _ _ _ sound taken => next_sound sound taken) (start_sound ttl) ran
  exact ⟨sound.real,sound.alive⟩

theorem aborts_are_real_once : ∃ w, execute next (start 300) [.watch "a",.watch "b",.turn,.pass 5,.disconnect "b",.pass 7,.answer,
    .pass 400,.unwatch "a",.deliver] = some w ∧ w.fired = [(1,12)] ∧
    ∃ requestId, w.made[1]? = some requestId ∧ w.Reported requestId 12 := by
  refine ⟨_,rfl,rfl,?_⟩
  exact (aborts_are_real (show execute next (start 300) [.watch "a",.watch "b",.turn,.pass 5,.disconnect "b",.pass 7,.answer,
    .pass 400,.unwatch "a",.deliver] = some _ from rfl)).1 (1,12) (by decide)

end

-- What does not stand between a recorded disconnect and its watcher: the registry stays
-- and is heard, the id stays watched, and the time is within its ttl.
def Steady (requestId : String) (w : World) : Act → Prop
  | .pass time => w.registry.visible (w.clock + time) requestId = true
  | .restart | .fail => False
  | .watch other | .unwatch other => other ≠ requestId
  | .disconnect _ | .turn | .answer | .deliver => True

instance (requestId : String) (w : World) (act : Act) : Decidable (Steady requestId w act) := by
  cases act <;> unfold Steady <;> infer_instance

def delivers : Act → Bool
  | .deliver => true
  | _ => false

-- Once a poll was delivered, the pump asks for the id and hears of it; after the next one
-- the event is fired.
structure Attended (requestId : String) (event polls : Nat) (w : World) : Prop where
  watched : w.watched.get? requestId = some event
  seen : w.registry.visible w.clock requestId = true
  asked : 1 ≤ polls → ∀ ids, w.pump = some (.asked ids) → requestId ∈ ids
  told : 1 ≤ polls → ∀ answered ids, w.pump = some (.told answered ids) → requestId ∈ ids
  fired : 2 ≤ polls → ∃ answered, (event,answered) ∈ w.fired

section
variable {w v : World} {requestId : String} {event polls : Nat}

theorem attended_next {act : Act} (sound : w.Sound) (attended : Attended requestId event polls w)
    (steady : Steady requestId w act) (taken : w.next act = some v) :
    Attended requestId event (polls + if delivers act then 1 else 0) v := by
  obtain ⟨watched,seen,asked,told,fired⟩ := attended
  cases next_goes taken with
  | pass time => exact ⟨watched,steady,asked,told,fired⟩
  | disconnect other =>
      refine ⟨watched,?_,asked,told,fired⟩
      rw [DisconnectStore.set_visible _ (Int.le_refl w.clock)]
      split
      · obtain ⟨deadline,held,live⟩ := DisconnectStore.visible_held seen
        have past := sound.past _ (sound.recorded requestId deadline held)
        dsimp only at past
        exact decide_eq_true (by omega)
      · exact seen
  | restart => cases steady
  | watch other =>
      have apart : other ≠ requestId := steady
      refine ⟨?_,seen,?_,?_,fired⟩
      · rw [watchDisconnect,Dict.get_set,if_neg apart]
        exact watched
      · intro polled ids pump
        exact asked polled ids (watch_pump other pump (by simp))
      · intro polled answered ids pump
        exact told polled answered ids (watch_pump other pump (by simp))
  | unwatch other =>
      have apart : other ≠ requestId := steady
      refine ⟨?_,seen,?_,?_,fired⟩
      · rw [unwatchDisconnect,Dict.get_erase,if_neg apart]
        exact watched
      · intro polled ids pump
        exact asked polled ids (unwatch_pump other pump)
      · intro polled answered ids pump
        exact told polled answered ids (unwatch_pump other pump)
  | turn going =>
      refine ⟨watched,seen,?_,?_,fired⟩
      · intro _ ids pump
        simp only [look] at pump
        split at pump
        · cases pump
        · cases pump
          exact Dict.get_isSome.mp (by rw [watched]; rfl)
      · intro _ answered ids pump
        simp only [look] at pump
        split at pump <;> cases pump
  | answer ids pump =>
      refine ⟨watched,?_,?_,?_,fired⟩
      · rw [(DisconnectStore.isSetMany_visible _ (Int.le_refl w.clock) ids).2]
        exact seen
      · intro _ others pumped
        cases pumped
      · intro polled answered found pumped
        cases pumped
        rw [(DisconnectStore.isSetMany_visible _ (Int.le_refl w.clock) ids).1]
        exact List.mem_filter.mpr ⟨asked polled ids pump,seen⟩
  | fail => cases steady
  | deliver answered ids pump =>
      refine ⟨watched,seen,?_,?_,?_⟩
      · intro _ others pumped
        cases pumped
      · intro _ later others pumped
        cases pumped
      · intro polled
        simp only [delivers,if_true] at polled
        have found := List.mem_filterMap.mpr ⟨requestId,told (by omega) answered ids pump,watched⟩
        exact ⟨answered,List.mem_append_right _ (List.mem_map.mpr ⟨event,found,rfl⟩)⟩

theorem attended_runs {acts : List Act} (sound : w.Sound) (attended : Attended requestId event polls w)
    (steady : Meets next (Steady requestId) w acts) (ran : execute next w acts = some v) :
    Attended requestId event (polls + acts.countP delivers) v := by
  induction acts generalizing w polls with
  | nil =>
      cases ran
      exact attended
  | cons act rest ih =>
      obtain ⟨middle,taken,later⟩ := execute_cons.mp ran
      have all := ih (next_sound sound taken) (attended_next sound attended steady.1 taken) (steady.2 middle taken) later
      have total : polls + (act :: rest).countP delivers = polls + (if delivers act then 1 else 0) + rest.countP delivers := by
        rw [List.countP_cons]
        omega
      rwa [total]

-- A recorded disconnect reaches whoever watches its id, in every order of what else
-- happens: two polls are enough, of which the first may be under way already.
theorem disconnects_reach {ttl : Int} {before acts : List Act} (reached : execute next (start ttl) before = some w)
    (watched : w.watched.get? requestId = some event) (gone : w.registry.visible w.clock requestId = true)
    (steady : Meets next (Steady requestId) w acts) (ran : execute next w acts = some v)
    (polls : 2 ≤ acts.countP delivers) : ∃ answered, (event,answered) ∈ v.fired := by
  have sound : w.Sound := execute_invariant (fun _ _ _ sound taken => next_sound sound taken) (start_sound ttl) reached
  have attended : Attended requestId event 0 w := ⟨watched,gone,fun none_ => by omega,fun none_ => by omega,fun none_ => by omega⟩
  exact (attended_runs sound attended steady ran).fired (by omega)

-- The poll that was under way had asked for another id only.
theorem disconnects_reach_late : ∃ w v, execute next (start 300) [.watch "a",.turn,.watch "b",.disconnect "b"] = some w ∧
    execute next w [.answer,.deliver,.pass 1,.unwatch "a",.turn,.answer,.deliver] = some v ∧
      ∃ answered, (1,answered) ∈ v.fired := by
  refine ⟨_,_,rfl,rfl,?_⟩
  exact disconnects_reach (show execute next (start 300) [.watch "a",.turn,.watch "b",.disconnect "b"] = some _ from rfl)
    (show _ = some 1 by decide) (by decide) (show Meets next (Steady "b") _ [.answer,.deliver,.pass 1,.unwatch "a",.turn,
      .answer,.deliver] by decide) rfl (by decide)

end
end World
end Modelship.Infer.Watching
