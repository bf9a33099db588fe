import Mathlib.Data.List.Pairwise

namespace Modelship.Mcp.Client

structure McpError where
  code : Int
  message : String
deriving DecidableEq

def invalidRequest : Int := -32600

def McpError.sessionExpired (error : McpError) : Bool := error.code = invalidRequest ∧ error.message = "Session terminated"

-- The errors a caller is given; `connectionClosed` is the one of a request nobody took.
inductive Failure where
  | mcp (error : McpError)
  | timeout
  | other (text : String)
  | connectionClosed
deriving DecidableEq

def Failure.retried : Failure → Bool
  | .mcp error => error.sessionExpired
  | .timeout | .other _ | .connectionClosed => false

inductive Future (Result : Type) where
  | pending
  | result (value : Result)
  | failed (failure : Failure)
  | cancelled
deriving DecidableEq

def Future.done {Result : Type} : Future Result → Bool
  | .pending => false
  | .result _ | .failed _ | .cancelled => true

-- What an operation on the server comes to within its time.
inductive Outcome (Result : Type) where
  | result (value : Result)
  | mcp (error : McpError)
  | timeout
  | other (text : String)
  | cancelled
deriving DecidableEq

def Outcome.cancels {Result : Type} : Outcome Result → Bool
  | .cancelled => true
  | .result _ | .mcp _ | .timeout | .other _ => false

-- How `_serve` gets out of its loop, and what closing the client makes of that.
inductive Way where
  | returned
  | raised (text : String)
  | cancelled
deriving DecidableEq

def Way.verdict {Result : Type} : Way → Future Result
  | .raised text => .failed (.other text)
  | .returned | .cancelled => .cancelled

inductive Phase where
  | entering
  | waiting
  | serving
  | leaving (way : Way)
  | ended
deriving DecidableEq

-- A `_Connection` with its task; `cancelling` is a cancel of the task, and `taken` the
-- requests whose operations it has begun.
structure Connection where
  phase : Phase
  requests : List (Option Nat)
  current : Option Nat
  closed : Bool
  cancelling : Bool
  taken : List Nat
deriving DecidableEq

namespace Connection

def new : Connection := ⟨.entering,[],none,false,false,[]⟩

def waiting (c : Connection) : List Nat := c.requests.filterMap id

def put (c : Connection) (request : Nat) : Connection := {c with requests := c.requests ++ [some request]}

def close (c : Connection) : Connection :=
  if c.current.isSome then {c with closed := true,cancelling := true} else
  {c with closed := true,requests := c.requests ++ [none]}

section
variable {Result : Type}

-- What happens to the futures: each is settled only if it is not done.
abbrev Settlements (Result : Type) := List (Nat × Future Result)

-- The handler and the `finally` of `_serve`: the current request, if it still waits, and
-- those that were not taken.
def finish (c : Connection) (way : Way) : Connection × Settlements Result :=
  ({c with phase := .ended,requests := [],closed := true},
    c.current.toList.map (·,way.verdict) ++ c.waiting.map (·,.failed .connectionClosed))

def entered (c : Connection) (raised : Option String) : Option (Connection × Settlements Result) :=
  if c.phase = .entering then some (match raised with
    | none => ({c with phase := .waiting},[])
    | some text => c.finish (.raised text)) else none

def take (c : Connection) : Option Connection :=
  if c.phase = .waiting then match c.requests with
    | [] => none
    | none :: rest => some {c with phase := .leaving .returned,requests := rest}
    | some request :: rest =>
      some {c with phase := .serving,requests := rest,current := some request,taken := c.taken ++ [request]}
  else none

-- The operation of the current request is over; once cancelled it ends so.
def answer (c : Connection) (outcome : Outcome Result) : Option (Connection × Settlements Result) :=
  if c.phase = .serving ∧ (c.cancelling = false ∨ outcome.cancels) then c.current.map fun request => match outcome with
    | .result value => ({c with phase := .waiting,current := none},[(request,.result value)])
    | .mcp error =>
      if c.closed || error.sessionExpired then
        ({c with phase := .leaving .returned,closed := true},[(request,.failed (.mcp error))])
      else ({c with phase := .waiting,current := none},[(request,.failed (.mcp error))])
    | .timeout => ({c with phase := .leaving .returned,closed := true},[(request,.failed .timeout)])
    | .other text => ({c with phase := .leaving (.raised text)},[])
    | .cancelled => ({c with phase := .leaving .cancelled},[])
  else none

-- The client is closed, which may raise something else.
def leave (c : Connection) (raised : Option Way) : Option (Connection × Settlements Result) := match c.phase with
  | .leaving way => some (c.finish (raised.getD way))
  | _ => none

end
end Connection

namespace Connection

-- The requests that wait for what the task does.
def held (c : Connection) : List Nat := (match c.phase with
  | .serving | .leaving _ => c.current.toList
  | .entering | .waiting | .ended => []) ++ c.waiting

-- The requests are taken in their order and no one twice; a cancel comes only while one is
-- served, or after it.
structure Sound (c : Connection) : Prop where
  order : (c.taken ++ c.waiting).Pairwise (· < ·)
  current : ∀ request, c.current = some request → request ∈ c.taken
  serving : c.phase = .serving → c.current.isSome
  quiet : c.phase = .entering ∨ c.phase = .waiting → c.current = none ∧ c.cancelling = false
  left : c.phase = .ended → c.closed = true ∧ c.waiting = []

-- What every step of the task does to its requests.
structure Works {Result : Type} (c d : Connection) (settled : Settlements Result) : Prop where
  sound : d.Sound
  fewer : (d.taken ++ d.waiting).Sublist (c.taken ++ c.waiting)
  grown : c.taken ⊆ d.taken
  kept : ∀ request ∈ c.held, request ∈ d.held ∨ ∃ future, (request,future) ∈ settled
  done : ∀ entry ∈ settled, entry.2.done = true
  dropped : ∀ request, (request,.failed .connectionClosed) ∈ settled → request ∈ c.waiting ∧ d.taken = c.taken ∧ d.waiting = []
  fresh : d.phase = .serving → ∀ request, d.current = some request → request ∉ c.taken

section
variable {Result : Type} {c d : Connection} {settled : Settlements Result}

theorem new_sound : new.Sound := by
  refine ⟨List.Pairwise.nil,?_,?_,fun _ => ⟨rfl,rfl⟩,?_⟩
  · intro request current
    cases current
  · intro serving
    cases serving
  · intro ended
    cases ended

theorem put_waiting (c : Connection) (request : Nat) : (c.put request).waiting = c.waiting ++ [request] := by
  simp [put,waiting,List.filterMap_append]

theorem put_sound (sound : c.Sound) (alive : c.closed = false) {request : Nat}
    (latest : ∀ r ∈ c.taken ++ c.waiting, r < request) :
    (c.put request).Sound := by
  refine ⟨?_,sound.current,sound.serving,sound.quiet,?_⟩
  · rw [put_waiting,← List.append_assoc]
    refine List.pairwise_append.mpr ⟨sound.order,List.pairwise_singleton _ _,?_⟩
    intro r there one last
    cases List.mem_singleton.mp last
    exact latest r there
  · intro ended
    have closed := (sound.left ended).1
    rw [alive] at closed
    cases closed

theorem close_waiting (c : Connection) : c.close.waiting = c.waiting := by
  unfold close
  split
  · rfl
  · simp [waiting,List.filterMap_append]

theorem close_same (c : Connection) : c.close.taken = c.taken ∧ c.close.phase = c.phase ∧ c.close.current = c.current := by
  unfold close
  split
  · exact ⟨rfl,rfl,rfl⟩
  · exact ⟨rfl,rfl,rfl⟩

theorem close_held (c : Connection) : c.close.held = c.held := by
  obtain ⟨_,phase,current⟩ := close_same c
  rw [held,held,phase,current,close_waiting]

theorem close_sound (sound : c.Sound) : c.close.Sound := by
  obtain ⟨taken,phase,current⟩ := close_same c
  refine ⟨?_,?_,?_,?_,?_⟩
  · rw [taken,close_waiting]
    exact sound.order
  · rw [current,taken]
    exact sound.current
  · rw [current,phase]
    exact sound.serving
  · rw [phase,current]
    intro early
    obtain ⟨none_,calm⟩ := sound.quiet early
    refine ⟨none_,?_⟩
    unfold close
    rw [if_neg (by simp [none_])]
    exact calm
  · rw [phase,close_waiting]
    intro ended
    refine ⟨?_,(sound.left ended).2⟩
    unfold close
    split
    · rfl
    · rfl

theorem verdict_done (way : Way) : (way.verdict : Future Result).done = true ∧
    (way.verdict : Future Result) ≠ .failed .connectionClosed := by
  cases way with
  | raised text => exact ⟨rfl,by simp [Way.verdict]⟩
  | returned | cancelled => exact ⟨rfl,by simp [Way.verdict]⟩

theorem held_cases {request : Nat} (there : request ∈ c.held) : c.current = some request ∨ request ∈ c.waiting := by
  unfold held at there
  rcases List.mem_append.mp there with own | queued
  · refine .inl ?_
    split at own
    · exact Option.mem_toList.mp own
    · exact Option.mem_toList.mp own
    all_goals cases own
  · exact .inr queued

theorem finish_works (sound : c.Sound) {way : Way} (finished : c.finish way = (d,settled)) : Works c d settled := by
  cases finished
  refine ⟨⟨?_,sound.current,?_,?_,fun _ => ⟨rfl,rfl⟩⟩,?_,List.Subset.refl _,?_,?_,?_,?_⟩
  · exact sound.order.sublist ((List.Sublist.refl c.taken).append (List.nil_sublist _))
  · intro serving
    cases serving
  · rintro (early | early)
    · cases early
    · cases early
  · exact (List.Sublist.refl c.taken).append (List.nil_sublist _)
  · intro request there
    refine .inr ?_
    rcases held_cases there with own | queued
    · exact ⟨way.verdict,List.mem_append_left _ (by simp [own])⟩
    · exact ⟨.failed .connectionClosed,List.mem_append_right _ (by simp [queued])⟩
  · intro entry there
    rcases List.mem_append.mp there with own | queued
    · obtain ⟨_,_,rfl⟩ := List.mem_map.mp own
      exact (verdict_done way).1
    · obtain ⟨_,_,rfl⟩ := List.mem_map.mp queued
      rfl
  · intro request there
    rcases List.mem_append.mp there with own | queued
    · obtain ⟨_,_,same⟩ := List.mem_map.mp own
      exact absurd (congrArg Prod.snd same) (verdict_done way).2
    · obtain ⟨_,inside,same⟩ := List.mem_map.mp queued
      cases same
      exact ⟨inside,rfl,rfl⟩
  · intro serving
    cases serving

theorem entered_works (sound : c.Sound) {raised : Option String} (step : c.entered raised = some
    (d,settled)) : Works c d settled := by
  unfold entered at step
  split at step
  · rename_i entering
    cases raised with
    | some text => exact finish_works sound (Option.some.inj step)
    | none =>
        cases step
        refine ⟨⟨sound.order,sound.current,?_,fun _ => sound.quiet (.inl entering),?_⟩,List.Sublist.refl _,List.Subset.refl _,
          ?_,?_,?_,?_⟩
        · intro serving
          cases serving
        · intro ended
          cases ended
        · intro request there
          refine .inl ?_
          rw [held,entering] at there
          exact there
        · intro entry there
          cases there
        · intro request there
          cases there
        · intro serving
          cases serving
  · cases step

theorem take_works (sound : c.Sound) (step : c.take = some d) : Works c d ([] : Settlements Result) := by
  unfold take at step
  split at step
  · rename_i calm
    have idle := (sound.quiet (.inr calm)).1
    split at step
    · cases step
    · rename_i rest queue
      cases step
      have same : rest.filterMap id = c.waiting := by simp [waiting,queue]
      refine ⟨⟨?_,sound.current,?_,?_,?_⟩,?_,List.Subset.refl _,?_,?_,?_,?_⟩
      · simpa only [waiting,same] using sound.order
      · intro serving
        cases serving
      · rintro (early | early)
        · cases early
        · cases early
      · intro ended
        cases ended
      · simp only [waiting,same]
        exact List.Sublist.refl _
      · intro request there
        rcases held_cases there with own | queued
        · rw [idle] at own
          cases own
        · refine .inl (List.mem_append_right _ ?_)
          rw [waiting,same]
          exact queued
      · intro entry there
        cases there
      · intro request there
        cases there
      · intro serving
        cases serving
    · rename_i request rest queue
      cases step
      have same : request :: rest.filterMap id = c.waiting := by simp [waiting,queue]
      have order := sound.order
      rw [← same] at order
      refine ⟨⟨?_,?_,fun _ => rfl,?_,?_⟩,?_,List.subset_append_left _ _,?_,?_,?_,?_⟩
      · simpa only [waiting,List.append_assoc,List.singleton_append] using order
      · intro other own
        cases own
        exact List.mem_append_right _ (List.mem_singleton.mpr rfl)
      · rintro (early | early)
        · cases early
        · cases early
      · intro ended
        cases ended
      · simp only [waiting,List.append_assoc,List.singleton_append]
        rw [same]
        exact List.Sublist.refl _
      · intro other there
        rcases held_cases there with own | queued
        · rw [idle] at own
          cases own
        · rw [← same] at queued
          rcases List.mem_cons.mp queued with rfl | later
          · exact .inl (List.mem_append_left _ (by simp))
          · exact .inl (List.mem_append_right _ later)
      · intro entry there
        cases there
      · intro other there
        cases there
      · intro _ other own taken
        cases own
        exact Nat.lt_irrefl _ ((List.pairwise_append.mp order).2.2 _ taken _ List.mem_cons_self)
  · cases step

-- An operation is over and the loop goes on, or it is left.
theorem goes_on (sound : c.Sound) {request : Nat} (own : c.current = some request)
    (calm : c.cancelling = false) {future : Future Result} (done : future.done = true)
    (other : future ≠ .failed .connectionClosed) :
    Works c {c with phase := .waiting,current := none} [(request,future)] := by
  refine ⟨⟨sound.order,?_,?_,fun _ => ⟨rfl,calm⟩,?_⟩,List.Sublist.refl _,List.Subset.refl _,?_,?_,?_,?_⟩
  · intro one there
    cases there
  · intro still
    cases still
  · intro ended
    cases ended
  · intro one there
    rcases held_cases there with current | queued
    · rw [own] at current
      cases current
      exact .inr ⟨future,List.mem_singleton.mpr rfl⟩
    · exact .inl queued
  · intro entry there
    cases List.mem_singleton.mp there
    exact done
  · intro one there
    exact absurd (congrArg Prod.snd (List.mem_singleton.mp there)).symm other
  · intro still
    cases still

theorem goes_out (sound : c.Sound) (serving : c.phase = .serving) (way : Way) (closed : Bool)
    (done : ∀ entry ∈ settled, entry.2.done = true ∧ entry.2 ≠ .failed .connectionClosed) :
    Works c {c with phase := .leaving way,closed := closed} settled := by
  refine ⟨⟨sound.order,sound.current,?_,?_,?_⟩,List.Sublist.refl _,List.Subset.refl _,?_,
    fun entry there => (done entry there).1,?_,?_⟩
  · intro still
    cases still
  · rintro (early | early)
    · cases early
    · cases early
  · intro ended
    cases ended
  · intro one there
    rw [held,serving] at there
    exact .inl there
  · intro one there
    exact absurd rfl (done _ there).2
  · intro still
    cases still

theorem answer_works (sound : c.Sound) {outcome : Outcome Result} (step : c.answer outcome = some (d,settled)) :
    Works c d settled := by
  unfold answer at step
  split at step
  · rename_i served
    obtain ⟨serving,calm⟩ := served
    obtain ⟨request,own,made⟩ := Option.map_eq_some_iff.mp step
    have one : ∀ future : Future Result, future.done = true → future ≠ .failed .connectionClosed →
        ∀ entry ∈ [(request,future)], entry.2.done = true ∧ entry.2 ≠ .failed .connectionClosed := by
      intro future done other entry there
      cases List.mem_singleton.mp there
      exact ⟨done,other⟩
    cases outcome with
    | result value =>
        cases made
        exact goes_on sound own (calm.resolve_right (by simp [Outcome.cancels])) rfl (by simp)
    | mcp error =>
        have rest := calm.resolve_right (by simp [Outcome.cancels])
        dsimp only at made
        split at made
        · cases made
          exact goes_out sound serving .returned true (one _ rfl (by simp))
        · cases made
          exact goes_on sound own rest rfl (by simp)
    | timeout =>
        cases made
        exact goes_out sound serving .returned true (one _ rfl (by simp))
    | other text =>
        cases made
        exact goes_out sound serving (.raised text) c.closed (fun _ there => absurd there List.not_mem_nil)
    | cancelled =>
        cases made
        exact goes_out sound serving .cancelled c.closed (fun _ there => absurd there List.not_mem_nil)
  · cases step

theorem leave_works (sound : c.Sound) {raised : Option Way} (step : c.leave raised = some (d,settled)) : Works c d settled := by
  unfold leave at step
  split at step
  · exact finish_works sound (Option.some.inj step)
  · cases step

-- A task that ends settles nothing as answered.
def Silent (settled : Settlements Result) : Prop :=
  ∀ entry ∈ settled, (∀ value, entry.2 ≠ .result value) ∧ ∀ error, entry.2 ≠ .failed (.mcp error)

theorem finish_silent {way : Way} (finished : c.finish way = (d,settled)) : Silent settled := by
  cases finished
  intro entry there
  rcases List.mem_append.mp there with own | queued
  · obtain ⟨_,_,rfl⟩ := List.mem_map.mp own
    cases way with
    | raised text | returned | cancelled => exact ⟨fun _ => by simp [Way.verdict],fun _ => by simp [Way.verdict]⟩
  · obtain ⟨_,_,rfl⟩ := List.mem_map.mp queued
    exact ⟨fun _ => by simp,fun _ => by simp⟩

theorem entered_silent {raised : Option String} (step : c.entered raised = some (d,settled)) : Silent settled := by
  unfold entered at step
  split at step
  · cases raised with
    | some text => exact finish_silent (Option.some.inj step)
    | none =>
        cases step
        exact fun _ there => absurd there List.not_mem_nil
  · cases step

theorem leave_silent {raised : Option Way} (step : c.leave raised = some (d,settled)) : Silent settled := by
  unfold leave at step
  split at step
  · exact finish_silent (Option.some.inj step)
  · cases step

theorem answer_tells {outcome : Outcome Result} {request : Nat} (current : c.current = some request)
    (step : c.answer outcome = some (d,settled)) : c.phase = .serving ∧ d.phase ≠ .serving ∧
    (∀ r value, (r,.result value) ∈ settled → (r,.result value) ∈ [(request,outcome)]) ∧
    ∀ r error, (r,.failed (.mcp error)) ∈ settled → (r,.mcp error) ∈ [(request,outcome)] := by
  unfold answer at step
  rw [current] at step
  split at step
  · rename_i served
    cases outcome with
    | result value =>
        cases step
        exact ⟨served.1,by simp,fun r other there => by simpa using there,fun r error there => by simp at there⟩
    | mcp error =>
        dsimp only [Option.map_some] at step
        split at step
        · cases step
          exact ⟨served.1,by simp,fun r other there => by simp at there,fun r error there => by simpa using there⟩
        · cases step
          exact ⟨served.1,by simp,fun r other there => by simp at there,fun r error there => by simpa using there⟩
    | timeout =>
        cases step
        exact ⟨served.1,by simp,fun r other there => by simp at there,fun r error there => by simp at there⟩
    | other text | cancelled =>
        cases step
        exact ⟨served.1,by simp,fun r other there => by simp at there,fun r error there => by simp at there⟩
  · cases step

def work (c : Connection) : Nat := 2 * c.requests.length + match c.phase with
  | .entering | .serving => 4
  | .waiting => 3
  | .leaving _ => 1
  | .ended => 0

theorem put_work (c : Connection) (request : Nat) : (c.put request).work = c.work + 2 := by
  simp only [work,put,List.length_append,List.length_singleton]
  omega

theorem finish_work {way : Way} (finished : c.finish way = (d,settled)) : d.work = 0 := by
  cases finished
  rfl

theorem entered_spends {raised : Option String} (step : c.entered raised = some (d,settled)) : d.work < c.work := by
  unfold entered at step
  split at step
  · rename_i entering
    cases raised with
    | some text =>
        rw [finish_work (Option.some.inj step),work,entering]
        simp
    | none =>
        cases step
        simp [work,entering]
  · cases step

theorem take_spends (step : c.take = some d) : d.work < c.work := by
  unfold take at step
  split at step
  · rename_i calm
    split at step
    · cases step
    · rename_i rest queue
      cases step
      simp only [work,calm,queue,List.length_cons]
      omega
    · rename_i request rest queue
      cases step
      simp only [work,calm,queue,List.length_cons]
      omega
  · cases step

theorem take_able (calm : c.phase = .waiting) {request : Nat} (has : request ∈ c.held) : ∃ d, c.take = some d := by
  rw [held,calm] at has
  cases queue : c.requests with
  | nil =>
      simp [waiting,queue] at has
  | cons first rest =>
      cases first with
      | none => exact ⟨_,by rw [take,if_pos calm,queue]⟩
      | some request => exact ⟨_,by rw [take,if_pos calm,queue]⟩

theorem answer_spends {outcome : Outcome Result} (step : c.answer outcome = some (d,settled)) : d.work < c.work := by
  unfold answer at step
  split at step
  · rename_i served
    obtain ⟨request,_,made⟩ := Option.map_eq_some_iff.mp step
    cases outcome with
    | mcp error =>
        dsimp only at made
        split at made
        · cases made
          simp [work,served.1]
        · cases made
          simp [work,served.1]
    | result _ | timeout | other _ | cancelled =>
        cases made
        simp [work,served.1]
  · cases step

theorem leave_spends {raised : Option Way} (step : c.leave raised = some (d,settled)) : d.work < c.work := by
  unfold leave at step
  split at step
  · rename_i way leaving
    rw [finish_work (Option.some.inj step),work,leaving]
    simp
  · cases step

end
end Connection

end Modelship.Mcp.Client
