import Mathlib.Data.List.Induction
import Modelship.Foundation.Dict
import Modelship.Foundation.Runs

namespace Modelship.Infer
open Foundation

-- The ids of gone clients, each with the time it is kept until.
structure DisconnectStore where
  ttl : Int
  deadlines : Dict String Int

namespace DisconnectStore

def start (ttl : Int) : DisconnectStore := ⟨ttl,.empty⟩

def evictExpired (s : DisconnectStore) (now : Int) : DisconnectStore :=
  {s with deadlines := s.deadlines.select fun entry => !(entry.2 ≤ now)}

def set (s : DisconnectStore) (requestId : String) (now : Int) : DisconnectStore :=
  let s := s.evictExpired now
  {s with deadlines := s.deadlines.set requestId (now + s.ttl)}

-- An expired entry is dropped by the read that finds it.
def isSet (s : DisconnectStore) (requestId : String) (now : Int) : DisconnectStore × Bool :=
  match s.deadlines.get? requestId with
  | none => (s,false)
  | some deadline => if deadline ≤ now then ({s with deadlines := s.deadlines.erase requestId},false) else (s,true)

def isSetMany (s : DisconnectStore) (now : Int) : List String → DisconnectStore × List String
  | [] => (s,[])
  | requestId :: rest =>
    let (s,found) := s.isSet requestId now
    let (s,others) := s.isSetMany now rest
    (s,if found then requestId :: others else others)

def clear (s : DisconnectStore) (requestId : String) : DisconnectStore :=
  {s with deadlines := s.deadlines.erase requestId}

-- What a read at one time finds.
def visible (s : DisconnectStore) (now : Int) (requestId : String) : Bool :=
  (s.deadlines.get? requestId).any fun deadline => now < deadline

theorem visible_held {s : DisconnectStore} {now : Int} {requestId : String} (seen : s.visible now requestId = true) :
    ∃ deadline, s.deadlines.get? requestId = some deadline ∧ now < deadline := by
  unfold visible at seen
  cases held : s.deadlines.get? requestId with
  | none =>
      rw [held] at seen
      cases seen
  | some deadline =>
      rw [held] at seen
      exact ⟨deadline,rfl,of_decide_eq_true seen⟩

section
variable (s : DisconnectStore) {now later : Int}

@[simp] theorem isSet_ttl (requestId : String) : (s.isSet requestId now).1.ttl = s.ttl := by
  unfold isSet
  split
  · rfl
  · split <;> rfl

@[simp] theorem isSetMany_ttl (ids : List String) : (s.isSetMany now ids).1.ttl = s.ttl := by
  induction ids generalizing s with
  | nil => rfl
  | cons requestId rest ih => exact (ih _).trans (s.isSet_ttl requestId)

theorem evict_visible (ordered : now ≤ later) (requestId : String) :
    (s.evictExpired now).visible later requestId = s.visible later requestId := by
  unfold visible evictExpired
  rw [Dict.get_select]
  cases s.deadlines.get? requestId with
  | none => rfl
  | some deadline =>
      by_cases gone : deadline ≤ now
      · simp [Option.filter,gone]
        omega
      · simp [Option.filter,gone]

theorem set_visible (ordered : now ≤ later) (requestId other : String) :
    (s.set requestId now).visible later other =
      if requestId = other then decide (later < now + s.ttl) else s.visible later other := by
  have kept := s.evict_visible ordered other
  unfold visible at kept ⊢
  unfold set
  rw [Dict.get_set]
  split
  · rfl
  · exact kept

theorem isSet_visible (ordered : now ≤ later) (requestId : String) :
    (s.isSet requestId now).2 = s.visible now requestId ∧
      ∀ other, (s.isSet requestId now).1.visible later other = s.visible later other := by
  unfold isSet visible
  cases held : s.deadlines.get? requestId with
  | none => exact ⟨rfl,fun _ => rfl⟩
  | some deadline =>
      dsimp only
      split
      · rename_i gone
        refine ⟨by simp; omega,?_⟩
        intro other
        rw [Dict.get_erase]
        split
        · rename_i same
          rw [← same,held]
          simp
          omega
        · rfl
      · rename_i kept
        exact ⟨by simp; omega,fun _ => rfl⟩

theorem isSetMany_visible (ordered : now ≤ later) (ids : List String) :
    (s.isSetMany now ids).2 = ids.filter (s.visible now) ∧
      ∀ other, (s.isSetMany now ids).1.visible later other = s.visible later other := by
  induction ids generalizing s with
  | nil => exact ⟨rfl,fun _ => rfl⟩
  | cons requestId rest ih =>
      obtain ⟨answer,_⟩ := s.isSet_visible (Int.le_refl now) requestId
      have same : (s.isSet requestId now).1.visible now = s.visible now :=
        funext (s.isSet_visible (Int.le_refl now) requestId).2
      obtain ⟨others,kept⟩ := ih (s.isSet requestId now).1
      refine ⟨?_,fun other => (kept other).trans ((s.isSet_visible ordered requestId).2 other)⟩
      simp only [isSetMany,answer,others,same,List.filter_cons]

theorem clear_visible (requestId other : String) :
    (s.clear requestId).visible now other = if requestId = other then false else s.visible now other := by
  unfold visible clear
  rw [Dict.get_erase]
  split <;> rfl

end

-- Calls of the registry, at the times it serves them.
inductive Call where
  | set (requestId : String)
  | isSetMany (requestIds : List String)
  | clear (requestId : String)

def serve (s : DisconnectStore) (call : Int × Call) : DisconnectStore := match call.2 with
  | .set requestId => s.set requestId call.1
  | .isSetMany requestIds => (s.isSetMany call.1 requestIds).1
  | .clear requestId => s.clear requestId

-- When an id was last set, if it was not cleared since.
def recalled (requestId : String) (calls : List (Int × Call)) : Option Int :=
  calls.foldl (fun kept call => match call.2 with
    | .set other => if other = requestId then some call.1 else kept
    | .isSetMany _ => kept
    | .clear other => if other = requestId then none else kept) none

section
variable {ttl now : Int} {calls : List (Int × Call)}

theorem serve_ttl (s : DisconnectStore) (call : Int × Call) : (s.serve call).ttl = s.ttl := by
  unfold serve
  split
  · rfl
  · exact s.isSetMany_ttl _
  · rfl

theorem serve_all_ttl : (calls.foldl serve (start ttl)).ttl = ttl := by
  induction calls using List.reverseRecOn with
  | nil => rfl
  | append_singleton earlier call ih => rw [List.foldl_append,List.foldl_cons,List.foldl_nil,serve_ttl,ih]

theorem served_visible (ordered : (calls.map Prod.fst).Pairwise (· ≤ ·)) (after : ∀ call ∈ calls, call.1 ≤ now) (requestId : String) :
    (calls.foldl serve (start ttl)).visible now requestId = (recalled requestId calls).any fun last => now < last + ttl := by
  induction calls using List.reverseRecOn with
  | nil => rfl
  | append_singleton earlier call ih =>
      rw [List.map_append,List.pairwise_append] at ordered
      have kept := ih ordered.1 fun call there => after call (List.mem_append_left _ there)
      have last : call.1 ≤ now := after call (List.mem_append_right _ List.mem_cons_self)
      unfold recalled at kept ⊢
      rw [List.foldl_append,List.foldl_append,List.foldl_cons,List.foldl_nil,List.foldl_cons,List.foldl_nil]
      obtain ⟨time,call⟩ := call
      cases call with
      | set other =>
          simp only [serve]
          rw [set_visible _ last,serve_all_ttl,kept]
          split <;> rfl
      | isSetMany ids =>
          simp only [serve]
          rw [(isSetMany_visible _ last ids).2,kept]
      | clear other =>
          simp only [serve]
          rw [clear_visible,kept]
          split <;> rfl

theorem isSet_held {s : DisconnectStore} {requestId other : String} {deadline : Int}
    (held : (s.isSet requestId now).1.deadlines.get? other = some deadline) : s.deadlines.get? other = some deadline := by
  unfold isSet at held
  split at held
  · exact held
  · split at held
    · rw [Dict.get_erase] at held
      split at held
      · cases held
      · exact held
    · exact held

theorem isSetMany_held {s : DisconnectStore} {ids : List String} {other : String} {deadline : Int}
    (held : (s.isSetMany now ids).1.deadlines.get? other = some deadline) : s.deadlines.get? other = some deadline := by
  induction ids generalizing s with
  | nil => exact held
  | cons requestId rest ih => exact isSet_held (ih held)

theorem set_held {s : DisconnectStore} {requestId other : String} {deadline : Int}
    (held : (s.set requestId now).deadlines.get? other = some deadline) :
    if requestId = other then deadline = now + s.ttl else s.deadlines.get? other = some deadline ∧ now < deadline := by
  simp only [set,evictExpired,Dict.get_set,Dict.get_select] at held
  split
  · rename_i same
    rw [if_pos same] at held
    exact (Option.some.inj held).symm
  · rename_i apart
    rw [if_neg apart] at held
    obtain ⟨there,kept⟩ := Option.filter_eq_some_iff.mp held
    exact ⟨there,by simpa using kept⟩

-- What is held was set, and has not been set or cleared since.
theorem served_held {requestId : String} {deadline : Int}
    (held : (calls.foldl serve (start ttl)).deadlines.get? requestId = some deadline) :
    recalled requestId calls = some (deadline - ttl) := by
  induction calls using List.reverseRecOn with
  | nil => cases held
  | append_singleton earlier call ih =>
      unfold recalled at ih ⊢
      rw [List.foldl_append,List.foldl_cons,List.foldl_nil] at held ⊢
      obtain ⟨time,call⟩ := call
      cases call with
      | set other =>
          have kept := set_held held
          rw [serve_all_ttl] at kept
          dsimp only
          split at kept
          · rename_i same
            rw [if_pos same,kept]
            simp
          · rename_i apart
            rw [if_neg apart]
            exact ih kept.1
      | isSetMany ids => exact ih (isSetMany_held held)
      | clear other =>
          simp only [serve,clear,Dict.get_erase] at held
          split at held
          · cases held
          · rename_i apart
            dsimp only
            rw [if_neg apart]
            exact ih held

-- Whatever was evicted and whenever, the registry answers as if it kept every set: an id
-- is reported just until its ttl after the last set has passed, or it is cleared; and it
-- holds nothing but last sets, after a set only those of the last ttl.
theorem registry_recalls (ordered : (calls.map Prod.fst).Pairwise (· ≤ ·)) (after : ∀ call ∈ calls, call.1 ≤ now) :
    (∀ requestIds, ((calls.foldl serve (start ttl)).isSetMany now requestIds).2 =
      requestIds.filter fun requestId => (recalled requestId calls).any fun last => now < last + ttl) ∧
    ∀ requestId other deadline, ((calls.foldl serve (start ttl)).set requestId now).deadlines.get? other = some deadline →
      recalled other (calls ++ [(now,.set requestId)]) = some (deadline - ttl) ∧ (0 < ttl → now < deadline) := by
  refine ⟨?_,?_⟩
  · intro requestIds
    rw [(isSetMany_visible _ (Int.le_refl now) requestIds).1]
    apply List.filter_congr
    intro requestId _
    exact served_visible ordered after requestId
  · intro requestId other deadline held
    refine ⟨?_,?_⟩
    · apply served_held
      rw [List.foldl_append]
      exact held
    · intro lasting
      have kept := set_held held
      rw [serve_all_ttl] at kept
      split at kept
      · omega
      · exact kept.2

theorem registry_recalls_reset : ((([((0 : Int),Call.set "a"),(5,.set "b"),(8,.isSetMany ["a"]),(9,.set "a")] :
    List (Int × Call)).foldl serve (start 10)).isSetMany 14 ["a","b","c"]).2 = ["a","b"] := by
  rw [(registry_recalls (by decide) (by decide)).1]
  decide

end
end DisconnectStore
end Modelship.Infer
