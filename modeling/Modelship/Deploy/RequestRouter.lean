import Mathlib.Algebra.BigOperators.Ring.Finset
import Mathlib.Algebra.Order.BigOperators.Group.List
import Mathlib.Algebra.Order.Field.Rat
import Mathlib.Tactic.FieldSimp
import Mathlib.Tactic.Linarith
import Modelship.Foundation.Ranking

namespace Modelship.Deploy
open Foundation

structure ReplicaId where
  uniqueId : String
  deploymentId : String
  deriving DecidableEq

structure RunningReplica where
  replicaId : ReplicaId
  deriving DecidableEq

-- The metadata's `session_id`, and whether the routing context says to back off.
structure PendingRequest where
  sessionId : String
  shouldBackoff : Bool
  deriving DecidableEq

-- `queueLens` is what the replicas' queue length cache holds.
structure AffinityRouter where
  balanceFactor : ℚ
  spareRequests : Nat
  queueLens : ReplicaId → Option Nat

section
variable {Digest : Type} [LinearOrder Digest] (blake2b : String → Digest)

def score (key : String) (replicaId : ReplicaId) : Digest := blake2b (key ++ "\x00" ++ replicaId.uniqueId)

namespace AffinityRouter

-- The router with the defaults of `initialize_state`.
def initialized (queueLens : ReplicaId → Option Nat) : AffinityRouter := ⟨5 / 4,2,queueLens⟩

def load (router : AffinityRouter) (replica : RunningReplica) : Nat := (router.queueLens replica.replicaId).getD 0

def mean (router : AffinityRouter) (candidates : List RunningReplica) : ℚ :=
  ((candidates.map router.load).sum : Nat) / (candidates.length : Nat)

def limit (router : AffinityRouter) (candidates : List RunningReplica) : ℚ :=
  router.balanceFactor * router.mean candidates + router.spareRequests

-- A replica whose load is at most the limit.
def within (router : AffinityRouter) (candidates : List RunningReplica) (replica : RunningReplica) : Bool :=
  (router.load replica : ℚ) ≤ router.limit candidates

-- `chooseReplicas` gives back the pending request as well, as it is left. `twoRandom`
-- is what `_two_random` draws.
def chooseReplicas (router : AffinityRouter) (twoRandom : List (List RunningReplica))
    (candidates : List RunningReplica) (pendingRequest : Option PendingRequest) :
    Option PendingRequest × List (List RunningReplica) :=
  let pendingRequest := pendingRequest.map fun pending => {pending with shouldBackoff := true}
  match pendingRequest with
  | none => (pendingRequest,twoRandom)
  | some pending =>
    if pending.sessionId = "" ∨ candidates = [] then (pendingRequest,twoRandom) else
    let ranking := ranked (fun replica => score blake2b pending.sessionId replica.replicaId) candidates
    let within_ := ranking.filter (router.within candidates)
    let above := ranking.filter fun replica => !router.within candidates replica
    (pendingRequest,(within_ ++ above).map fun replica => [replica])

section
variable {router : AffinityRouter}

-- Some replica has at most the mean load, which the limit is no less than.
theorem some_within {candidates : List RunningReplica} (some_ : candidates ≠ []) (generous : 1 ≤ router.balanceFactor) :
    ∃ replica ∈ candidates, router.within candidates replica = true := by
  have length : (0 : ℚ) < (candidates.length : Nat) := by
    exact_mod_cast List.length_pos_iff.mpr some_
  have total : (candidates.map fun replica => (router.load replica : ℚ)).sum =
      (candidates.map fun _ => router.mean candidates).sum := by
    rw [List.map_const',List.sum_replicate,nsmul_eq_mul,mean,mul_div_cancel₀ _ length.ne']
    rw [Nat.cast_list_sum,List.map_map]
    rfl
  obtain ⟨replica,there,less⟩ := List.exists_le_of_sum_le some_ _ _ (le_of_eq total)
  refine ⟨replica,there,?_⟩
  have nonneg : 0 ≤ router.mean candidates := div_nonneg (Nat.cast_nonneg _) length.le
  have scaled : router.mean candidates ≤ router.balanceFactor * router.mean candidates := le_mul_of_one_le_left nonneg generous
  have spare : (0 : ℚ) ≤ router.spareRequests := Nat.cast_nonneg _
  unfold within limit
  rw [decide_eq_true_eq]
  linarith

theorem limit_perm {one two : List RunningReplica} (same : one.Perm two) : router.limit one = router.limit two := by
  unfold limit mean
  rw [(same.map router.load).sum_eq,same.length_eq]

theorem within_perm {one two : List RunningReplica} (same : one.Perm two) : router.within one = router.within two := by
  funext replica
  unfold within
  rw [limit_perm same]

end

-- The groups of a keyed request over some candidates.
theorem choose_keyed (router : AffinityRouter) (twoRandom : List (List RunningReplica))
    {candidates : List RunningReplica} {pending : PendingRequest} (keyed : pending.sessionId ≠ "")
    (some_ : candidates ≠ []) : (router.chooseReplicas blake2b twoRandom candidates (some pending)).2 =
      ((ranked (fun replica => score blake2b pending.sessionId replica.replicaId) candidates).filter
          (router.within candidates) ++
        (ranked (fun replica => score blake2b pending.sessionId replica.replicaId) candidates).filter
          fun replica => !router.within candidates replica).map fun replica => [replica] := by
  unfold chooseReplicas
  simp only [Option.map_some]
  rw [if_neg (not_or.mpr ⟨keyed,some_⟩)]

section
variable {router : AffinityRouter} {candidates : List RunningReplica} {pending : PendingRequest}

-- Within the limit comes first what scores highest there.
theorem choose_first (twoRandom : List (List RunningReplica)) (keyed : pending.sessionId ≠ "") (some_ : candidates ≠ [])
    (generous : 1 ≤ router.balanceFactor) : ∃ first rest,
    (router.chooseReplicas blake2b twoRandom candidates (some pending)).2 = [first] :: rest ∧ first ∈ candidates ∧
      router.load first ≤ router.limit candidates ∧
      ∀ replica ∈ candidates, router.load replica ≤ router.limit candidates →
        score blake2b pending.sessionId replica.replicaId ≤ score blake2b pending.sessionId first.replicaId := by
  rw [choose_keyed blake2b router twoRandom keyed some_]
  obtain ⟨replica,there,low⟩ := some_within some_ generous
  cases kept : (ranked (fun replica => score blake2b pending.sessionId replica.replicaId) candidates).filter
      (router.within candidates) with
  | nil =>
      have none_ := List.filter_eq_nil_iff.mp kept replica ((mem_ranked _).mpr there)
      exact absurd low none_
  | cons first rest =>
      obtain ⟨present,passes,highest⟩ := ranked_first kept
      refine ⟨first,_,rfl,present,by simpa [within] using passes,?_⟩
      intro other listed short
      exact highest other listed (by simpa [within] using short)

theorem choose_perm (twoRandom : List (List RunningReplica)) (keyed : pending.sessionId ≠ "") (some_ : candidates ≠ [])
    (distinct : (candidates.map fun replica => score blake2b pending.sessionId replica.replicaId).Nodup)
    {others : List RunningReplica} (same : candidates.Perm others) :
    (router.chooseReplicas blake2b twoRandom others (some pending)).2 =
      (router.chooseReplicas blake2b twoRandom candidates (some pending)).2 := by
  have more : others ≠ [] := by
    rintro rfl
    exact some_ same.eq_nil
  rw [choose_keyed blake2b router twoRandom keyed some_,choose_keyed blake2b router twoRandom keyed more,
    within_perm same,ranked_order distinct same]

-- Without one candidate the others keep their order, if each keeps its side of the limit.
theorem choose_without (twoRandom : List (List RunningReplica)) (keyed : pending.sessionId ≠ "") (some_ : candidates ≠ [])
    (distinct : (candidates.map fun replica => score blake2b pending.sessionId replica.replicaId).Nodup)
    {later : AffinityRouter} {removed : RunningReplica} {others : List RunningReplica}
    (same : candidates.Perm (removed :: others)) (more : others ≠ [])
    (sides : ∀ replica ∈ others, later.load replica ≤ later.limit others ↔ router.load replica ≤ router.limit candidates) :
    (later.chooseReplicas blake2b twoRandom others (some pending)).2 =
      (router.chooseReplicas blake2b twoRandom candidates (some pending)).2.filter (· ≠ [removed]) := by
  rw [choose_keyed blake2b router twoRandom keyed some_]
  have apart : removed ∉ others := by
    intro there
    have nodup : (removed :: others).Nodup := same.nodup_iff.mp distinct.of_map
    exact (List.nodup_cons.mp nodup).1 there
  have others_ : others.filter (· ≠ removed) = others := by
    apply List.filter_eq_self.mpr
    rintro other there
    simp only [ne_eq,decide_not,Bool.not_eq_true',decide_eq_false_iff_not]
    rintro rfl
    exact apart there
  have left : (candidates.filter (· ≠ removed)).Perm others := by
    have fewer := same.filter (· ≠ removed)
    rwa [List.filter_cons_of_neg (by simp),others_] at fewer
  have fewer : ((candidates.filter (· ≠ removed)).map fun replica =>
      score blake2b pending.sessionId replica.replicaId).Nodup := distinct.sublist (List.filter_sublist.map _)
  rw [choose_keyed blake2b later twoRandom keyed more,← ranked_order fewer left,ranked_filter distinct]
  have listed : ∀ replica ∈ ranked (fun replica => score blake2b pending.sessionId replica.replicaId) candidates,
      replica ≠ removed → replica ∈ others := by
    intro replica there differs
    have present := same.subset ((mem_ranked _).mp there)
    exact (List.mem_cons.mp present).resolve_left differs
  generalize ranked (fun replica => score blake2b pending.sessionId replica.replicaId) candidates = ranking at *
  -- On the others the two tests agree, so they pick the same of the ranking.
  have agree : ∀ replica ∈ ranking.filter (· ≠ removed),
      later.within others replica = router.within candidates replica := by
    intro replica there
    obtain ⟨present,differs⟩ := List.mem_filter.mp there
    unfold within
    exact decide_eq_decide.mpr (sides replica (listed replica present (by simpa using differs)))
  rw [List.filter_map,List.filter_append,List.filter_congr agree,
    List.filter_congr (fun replica there => congrArg (!·) (agree replica there)),List.filter_filter,List.filter_filter,
    List.filter_filter,List.filter_filter]
  congr 2
  · apply List.filter_congr
    intro replica _
    simp [Bool.and_comm]
  · apply List.filter_congr
    intro replica _
    simp [Bool.and_comm]

end

-- A keyed request gets each candidate once, first the one that scores highest among those
-- within the limit. The order is one for every order of the candidates, and a candidate
-- that goes away takes no other from its place.
theorem affinity_order (queueLens : ReplicaId → Option Nat) (twoRandom : List (List RunningReplica))
    (candidates : List RunningReplica) (pending : PendingRequest) (keyed : pending.sessionId ≠ "")
    (some_ : candidates ≠ [])
    (distinct : (candidates.map fun replica => score blake2b pending.sessionId replica.replicaId).Nodup) :
    (∃ order : List RunningReplica, ((initialized queueLens).chooseReplicas blake2b twoRandom candidates (some pending)).2 =
        order.map (fun replica => [replica]) ∧ order.Perm candidates) ∧
    (∃ first rest, ((initialized queueLens).chooseReplicas blake2b twoRandom candidates (some pending)).2 =
        [first] :: rest ∧ first ∈ candidates ∧
      (initialized queueLens).load first ≤ (initialized queueLens).limit candidates ∧
      ∀ replica ∈ candidates, (initialized queueLens).load replica ≤ (initialized queueLens).limit candidates →
        score blake2b pending.sessionId replica.replicaId ≤ score blake2b pending.sessionId first.replicaId) ∧
    (∀ others : List RunningReplica, candidates.Perm others →
      ((initialized queueLens).chooseReplicas blake2b twoRandom others (some pending)).2 =
        ((initialized queueLens).chooseReplicas blake2b twoRandom candidates (some pending)).2) ∧
    ∀ (removed : RunningReplica) (others : List RunningReplica) (later : ReplicaId → Option Nat),
      candidates.Perm (removed :: others) → others ≠ [] →
      (∀ replica ∈ others, (initialized later).load replica ≤ (initialized later).limit others ↔
        (initialized queueLens).load replica ≤ (initialized queueLens).limit candidates) →
      ((initialized later).chooseReplicas blake2b twoRandom others (some pending)).2 =
        ((initialized queueLens).chooseReplicas blake2b twoRandom candidates (some pending)).2.filter (· ≠ [removed]) := by
  have generous : 1 ≤ (initialized queueLens).balanceFactor := by norm_num [initialized]
  refine ⟨⟨_,choose_keyed blake2b _ twoRandom keyed some_,?_⟩,choose_first blake2b twoRandom keyed some_ generous,?_,?_⟩
  · exact (List.filter_append_perm _ _).trans (ranked_perm _ candidates)
  · intro others same
    exact choose_perm blake2b twoRandom keyed some_ distinct same
  · intro removed others later same more sides
    exact choose_without blake2b twoRandom keyed some_ distinct same more sides

end AffinityRouter
end

def sampleReplica (uniqueId : String) : RunningReplica := ⟨uniqueId,"gw.m-0123456789"⟩

-- Only one of the two replicas has requests, more than the limit.
def sampleLens (replicaId : ReplicaId) : Option Nat := if replicaId.uniqueId = "second" then some 40 else none

theorem affinity_order_two :
    ((AffinityRouter.initialized sampleLens).chooseReplicas String.length []
        [sampleReplica "one",sampleReplica "second"] (some ⟨"key",false⟩)).2 =
      ((AffinityRouter.initialized sampleLens).chooseReplicas String.length []
        [sampleReplica "second",sampleReplica "one"] (some ⟨"key",false⟩)).2 := by
  obtain ⟨_,_,order,_⟩ := AffinityRouter.affinity_order String.length sampleLens []
    [sampleReplica "second",sampleReplica "one"] ⟨"key",false⟩ (by decide) (by decide) (by decide +kernel)
  exact order _ (.swap _ _ _)

end Modelship.Deploy
