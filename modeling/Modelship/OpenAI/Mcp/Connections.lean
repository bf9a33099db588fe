import Modelship.Foundation.Dict
import Modelship.Foundation.Runs
import Modelship.OpenAI.Mcp.Connection

namespace Modelship.Mcp.Client
open Foundation

-- A request, with the connection whose queue it was put in.
structure Request (Result : Type) where
  home : Nat
  future : Future Result
deriving DecidableEq

-- A caller in `_run`, with the requests it has made; its answer is pending as long as it
-- waits for the last of them.
structure Call (Result : Type) where
  label : String
  made : List Nat
  answer : Future Result
deriving DecidableEq

-- `McpConnections` and its callers, and what the operations have come to.
structure World (Result : Type) where
  requests : List (Request Result)
  connections : List Connection
  table : Dict String Nat
  calls : List (Call Result)
  outcomes : List (Nat × Outcome Result)

inductive Act (Result : Type) where
  | call (label : String)
  | cancel (call : Nat)
  | close
  | resume (call : Nat)
  | entered (connection : Nat) (raised : Option String)
  | take (connection : Nat)
  | answer (connection : Nat) (outcome : Outcome Result)
  | leave (connection : Nat) (raised : Option Way)

-- What goes on without a new caller, a cancel or `close`.
def Act.own {Result : Type} : Act Result → Bool
  | .call _ | .cancel _ | .close => false
  | .resume _ | .entered _ _ | .take _ | .answer _ _ | .leave _ _ => true

namespace World
section
variable {Result : Type}

def start : World Result := ⟨[],[],.empty,[],[]⟩

def settle (w : World Result) (settled : Nat × Future Result) : World Result :=
  {w with requests := w.requests.modify settled.1 fun request =>
    if request.future.done then request else {request with future := settled.2}}

def settleAll (w : World Result) (settled : Connection.Settlements Result) : World Result := settled.foldl settle w

def replace (w : World Result) (connection : Nat) (c : Connection) : World Result :=
  {w with connections := w.connections.set connection c}

-- `_connection`: the open one of the label, or a new one.
def connection (w : World Result) (label : String) : World Result × Nat :=
  match (w.table.get? label).filter fun i => w.connections[i]?.any (!·.closed) with
  | some i => (w,i)
  | none => ({w with connections := w.connections ++ [.new],table := w.table.set label w.connections.length},w.connections.length)

def queue (w : World Result) (i : Nat) : World Result :=
  {w with requests := w.requests ++ [⟨i,.pending⟩],connections := w.connections.modify i (·.put w.requests.length)}

-- `run`, up to its wait.
def submit (w : World Result) (label : String) : World Result × Nat :=
  let (w,i) := w.connection label
  (w.queue i,w.requests.length)

def update (w : World Result) (k : Nat) (call : Call Result) : World Result := {w with calls := w.calls.set k call}

-- What a caller makes of its request: a session that had expired is tried once more.
def hear (w : World Result) (k : Nat) (call : Call Result) (future : Future Result) : World Result := match future with
  | .failed failure =>
    if failure.retried ∧ call.made.length = 1 then
      let (w,again) := w.submit call.label
      w.update k {call with made := call.made ++ [again]}
    else w.update k {call with answer := .failed failure}
  | future => w.update k {call with answer := future}

def resume (w : World Result) (k : Nat) : Option (World Result) := do
  let call ← w.calls[k]?
  let last ← call.made.getLast?
  let request ← w.requests[last]?
  if call.answer.done || !request.future.done then none else some (w.hear k call request.future)

def next (w : World Result) : Act Result → Option (World Result)
  | .call label =>
    let (w,request) := w.submit label
    some {w with calls := w.calls ++ [⟨label,[request],.pending⟩]}
  | .cancel k => do
    let call ← w.calls[k]?
    let last ← call.made.getLast?
    if call.answer.done then none else
    return (w.settle (last,.cancelled)).update k {call with answer := .cancelled}
  | .close =>
    let opened := w.table.entries.map Prod.snd
    some {w with connections := w.connections.mapIdx fun i c => if i ∈ opened then c.close else c}
  | .resume k => w.resume k
  | .entered i raised => do
    let c ← w.connections[i]?
    let (c,settled) ← c.entered raised
    return (w.replace i c).settleAll settled
  | .take i => do
    let c ← w.connections[i]?
    return w.replace i (← c.take)
  | .answer i outcome => do
    let c ← w.connections[i]?
    let request ← c.current
    let (c,settled) ← c.answer outcome
    return {(w.replace i c).settleAll settled with outcomes := w.outcomes ++ [(request,outcome)]}
  | .leave i raised => do
    let c ← w.connections[i]?
    let (c,settled) ← c.leave raised
    return (w.replace i c).settleAll settled

end
end World

def Call.work {Result : Type} (call : Call Result) : Nat := if call.answer.done then 0 else if call.made.length = 1 then 8 else 1

def total {Item : Type} (size : Item → Nat) : List Item → Nat
  | [] => 0
  | item :: rest => size item + total size rest

section
variable {Item : Type} {size : Item → Nat} {items : List Item} {last item : Item} {j : Nat}

theorem total_snoc (items : List Item) (last : Item) : total size (items ++ [last]) = total size items + size last := by
  induction items with
  | nil => simp [total]
  | cons item rest ih => simp [total,ih,Nat.add_assoc]

theorem total_modify (there : items[j]? = some item) (change : Item → Item) :
    total size (items.modify j change) + size item = total size items + size (change item) := by
  induction items generalizing j with
  | nil => cases there
  | cons first rest ih =>
      cases j with
      | zero =>
          cases there
          simp only [List.modify_zero_cons,total]
          omega
      | succ j =>
          have later := ih (j := j) there
          simp only [List.modify_succ_cons,total]
          omega

theorem total_set (there : items[j]? = some item) (new : Item) :
    total size (items.set j new) + size item = total size items + size new := by
  rw [List.set_eq_modify]
  exact total_modify there fun _ => new

theorem get_snoc (there : items[j]? = some item) (last : Item) : (items ++ [last])[j]? = some item := by
  rw [List.getElem?_append_left (List.getElem?_eq_some_iff.mp there).1]
  exact there

theorem snoc_get (there : (items ++ [last])[j]? = some item) : items[j]? = some item ∨ j = items.length ∧ item = last := by
  by_cases old : j < items.length
  · rw [List.getElem?_append_left old] at there
    exact .inl there
  · have inside := (List.getElem?_eq_some_iff.mp there).1
    rw [List.length_append,List.length_singleton] at inside
    have end_ : j = items.length := by omega
    rw [end_,List.getElem?_concat_length] at there
    exact .inr ⟨end_,(Option.some.inj there).symm⟩

end

namespace World

-- Every request that is not done is one its connection's task still has.
structure Held {Result : Type} (w : World Result) : Prop where
  sound : ∀ c ∈ w.connections, c.Sound
  known : ∀ (i : Nat) c, w.connections[i]? = some c → ∀ r ∈ c.taken ++ c.waiting, ∃ q, w.requests[r]? = some q ∧ q.home = i
  located : ∀ (r : Nat) q, w.requests[r]? = some q → q.future.done = false → ∃ c, w.connections[q.home]? = some c ∧ r ∈ c.held
  unsent : ∀ (r : Nat) q, w.requests[r]? = some q → q.future = .failed .connectionClosed →
    ∀ c ∈ w.connections, r ∉ c.taken ++ c.waiting

-- What a caller is told is what its own operation came to, which came to it once.
structure Told {Result : Type} (w : World Result) : Prop where
  result : ∀ (r : Nat) q, w.requests[r]? = some q → ∀ value, q.future = .result value → (r,.result value) ∈ w.outcomes
  error : ∀ (r : Nat) q, w.requests[r]? = some q → ∀ error, q.future = .failed (.mcp error) → (r,.mcp error) ∈ w.outcomes
  once : (w.outcomes.map Prod.fst).Nodup
  answered : ∀ r ∈ w.outcomes.map Prod.fst, ∃ q c, w.requests[r]? = some q ∧ w.connections[q.home]? = some c ∧ r ∈ c.taken ∧
    (c.phase = .serving → c.current ≠ some r)

-- A second request is one after a session that had expired.
def Tried {Result : Type} (w : World Result) (call : Call Result) : Prop :=
  ∃ last q, call.made.getLast? = some last ∧ w.requests[last]? = some q ∧
    (call.made = [last] ∨ ∃ first error, call.made = [first,last] ∧ error.sessionExpired = true ∧ (first,
      .mcp error) ∈ w.outcomes) ∧
    (call.answer.done = true → call.answer = q.future ∨ call.answer = .cancelled)

structure Kept {Result : Type} (w : World Result) : Prop where
  held : w.Held
  told : w.Told
  tried : ∀ call ∈ w.calls, w.Tried call

section
variable {Result : Type} {w v : World Result}

def settleOne (r : Nat) (q : Request Result) (settled : Nat × Future Result) : Request Result :=
  if settled.1 = r ∧ q.future.done = false then {q with future := settled.2} else q

theorem settle_get (settled : Nat × Future Result) (r : Nat) :
    (w.settle settled).requests[r]? = w.requests[r]?.map (settleOne r · settled) := by
  rw [settle,List.getElem?_modify]
  refine congrArg (Option.map · w.requests[r]?) ?_
  funext q
  by_cases same : settled.1 = r
  · cases done : q.future.done with
    | true => simp [settleOne,same,done]
    | false => simp [settleOne,same,done]
  · simp [settleOne,same]

theorem settleAll_get (settled : Connection.Settlements Result) (r : Nat) :
    (w.settleAll settled).requests[r]? = w.requests[r]?.map fun q => settled.foldl (settleOne r) q := by
  induction settled generalizing w with
  | nil => simp [settleAll]
  | cons first rest ih =>
      rw [settleAll,List.foldl_cons]
      change (settleAll (w.settle first) rest).requests[r]? = _
      rw [ih,settle_get,Option.map_map]
      rfl

theorem settleAll_same (settled : Connection.Settlements Result) : (w.settleAll settled).connections = w.connections ∧
    (w.settleAll settled).table = w.table ∧ (w.settleAll settled).calls = w.calls ∧
    (w.settleAll settled).outcomes = w.outcomes := by
  induction settled generalizing w with
  | nil => exact ⟨rfl,rfl,rfl,rfl⟩
  | cons first rest ih => exact ih (w := w.settle first)

-- Settling leaves a request that is done as it is; one that is not is done by an entry of
-- its own.
theorem settled_cases {settled : Connection.Settlements Result} (done : ∀ entry ∈ settled, entry.2.done = true) (r : Nat)
    (q : Request Result) : (settled.foldl (settleOne r) q).home = q.home ∧
    (settled.foldl (settleOne r) q = q ∧ (q.future.done = true ∨ ∀ future, (r,future) ∉ settled) ∨
      q.future.done = false ∧ (r,(settled.foldl (settleOne r) q).future) ∈ settled) := by
  induction settled generalizing q with
  | nil => exact ⟨rfl,.inl ⟨rfl,.inr fun _ there => absurd there List.not_mem_nil⟩⟩
  | cons first rest ih =>
      have others := ih (fun entry there => done entry (List.mem_cons_of_mem _ there)) (settleOne r q first)
      rw [List.foldl_cons]
      by_cases hit : first.1 = r ∧ q.future.done = false
      · have made : settleOne r q first = {q with future := first.2} := if_pos hit
        have settles : first.2.done = true := done first List.mem_cons_self
        rw [made] at others ⊢
        obtain ⟨home,how⟩ := others
        refine ⟨home,.inr ⟨hit.2,?_⟩⟩
        rcases how with ⟨same,_⟩ | ⟨opened,_⟩
        · rw [same]
          exact List.mem_cons.mpr (.inl (Prod.ext hit.1.symm rfl))
        · rw [settles] at opened
          cases opened
      · have made : settleOne r q first = q := if_neg hit
        rw [made] at others ⊢
        obtain ⟨home,how⟩ := others
        refine ⟨home,?_⟩
        rcases how with ⟨same,why⟩ | ⟨opened,there⟩
        · refine .inl ⟨same,?_⟩
          rcases why with finished | absent
          · exact .inl finished
          · cases finished : q.future.done with
            | true => exact .inl rfl
            | false =>
                refine .inr fun future there => ?_
                rcases List.mem_cons.mp there with first_ | later
                · exact hit ⟨(congrArg Prod.fst first_).symm,finished⟩
                · exact absent future later
        · exact .inr ⟨opened,List.mem_cons_of_mem _ there⟩

theorem start_kept : (start : World Result).Kept := by
  refine ⟨⟨?_,?_,?_,?_⟩,⟨?_,?_,List.nodup_nil,?_⟩,?_⟩
  · intro c there
    cases there
  · intro i c there
    cases there
  · intro r q there
    cases there
  · intro r q there
    cases there
  · intro r q there
    cases there
  · intro r q there
    cases there
  · intro r there
    cases there
  · intro call there
    cases there

-- The connection a step of a task has moved.
theorem replace_get {i : Nat} {c d : Connection} (there : w.connections[i]? = some c) {j : Nat} {e : Connection}
    (found : (w.replace i d).connections[j]? = some e) : j = i ∧ e = d ∨ j ≠ i ∧ w.connections[j]? = some e := by
  rw [replace,List.getElem?_set] at found
  by_cases same : i = j
  · have inside : i < w.connections.length := (List.getElem?_eq_some_iff.mp there).1
    rw [if_pos same,if_pos inside] at found
    exact .inl ⟨same.symm,(Option.some.inj found).symm⟩
  · rw [if_neg same] at found
    exact .inr ⟨fun back => same back.symm,found⟩

theorem replace_self {i : Nat} {c : Connection} (there : w.connections[i]? = some c) (d : Connection) :
    (w.replace i d).connections[i]? = some d := by
  have inside : i < w.connections.length := (List.getElem?_eq_some_iff.mp there).1
  rw [replace,List.getElem?_set,if_pos rfl,if_pos inside]

theorem replace_other {i j : Nat} (apart : j ≠ i) (d : Connection) : (w.replace i d).connections[j]? = w.connections[j]? := by
  rw [replace,List.getElem?_set,if_neg apart.symm]

section
variable {i : Nat} {c d : Connection} {settled : Connection.Settlements Result}

-- The world after a step of a task.
def worked (w : World Result) (i : Nat) (d : Connection) (settled : Connection.Settlements Result) : World Result :=
  (w.replace i d).settleAll settled

theorem worked_request (works : Connection.Works c d settled) {r : Nat} {q : Request Result}
    (found : (w.worked i d settled).requests[r]? = some q) : ∃ old, w.requests[r]? = some old ∧ q.home = old.home ∧
      (q = old ∧ (old.future.done = true ∨ ∀ future, (r,future) ∉ settled) ∨ old.future.done = false ∧ (r,
        q.future) ∈ settled) := by
  rw [worked,settleAll_get] at found
  obtain ⟨old,there,rfl⟩ := Option.map_eq_some_iff.mp found
  obtain ⟨home,how⟩ := settled_cases works.done r old
  exact ⟨old,there,home,how⟩

theorem worked_later (works : Connection.Works c d settled) {r : Nat} {q : Request Result} (found : w.requests[r]? = some q) :
    ∃ new, (w.worked i d settled).requests[r]? = some new ∧ new.home = q.home ∧ (q.future.done = true → new = q) := by
  obtain ⟨home,how⟩ := settled_cases works.done r q
  refine ⟨settled.foldl (settleOne r) q,?_,home,?_⟩
  · have same : (w.replace i d).requests[r]? = some q := found
    rw [worked,settleAll_get,same]
    rfl
  · intro finished
    rcases how with ⟨same,_⟩ | ⟨waits,_⟩
    · exact same
    · rw [finished] at waits
      cases waits

theorem worked_connections : (w.worked i d settled).connections = (w.replace i d).connections := (settleAll_same settled).1

theorem worked_held (held : w.Held) (there : w.connections[i]? = some c) (works : Connection.Works c d settled) :
    (w.worked i d settled).Held := by
  have old := List.mem_of_getElem? there
  refine ⟨?_,?_,?_,?_⟩
  · intro e member
    rw [worked_connections] at member
    rcases List.mem_or_eq_of_mem_set member with before | rfl
    · exact held.sound e before
    · exact works.sound
  · intro j e found r inside
    rw [worked_connections] at found
    have known : ∃ q, w.requests[r]? = some q ∧ q.home = j := by
      rcases replace_get there found with ⟨rfl,rfl⟩ | ⟨_,before⟩
      · exact held.known j c there r (works.fewer.subset inside)
      · exact held.known j e before r inside
    obtain ⟨q,request,home⟩ := known
    obtain ⟨new,later,same,_⟩ := worked_later (i := i) works request
    exact ⟨new,later,same.trans home⟩
  · intro r q found waits
    obtain ⟨before,request,home,how⟩ := worked_request works found
    rcases how with ⟨rfl,why⟩ | ⟨_,inside⟩
    · obtain ⟨e,its,has⟩ := held.located r q request waits
      rw [worked_connections]
      by_cases same : q.home = i
      · rw [same,there] at its
        cases its
        rw [same]
        refine ⟨d,replace_self there d,?_⟩
        rcases works.kept r has with still | ⟨future,settles⟩
        · exact still
        · rcases why with finished | absent
          · rw [finished] at waits
            cases waits
          · exact absurd settles (absent future)
      · exact ⟨e,(replace_other same d).trans its,has⟩
    · have finished := works.done _ inside
      rw [waits] at finished
      cases finished
  · intro r q found dropped e member
    rw [worked_connections] at member
    obtain ⟨before,request,home,how⟩ := worked_request works found
    rcases how with ⟨rfl,_⟩ | ⟨_,inside⟩
    · rcases List.mem_or_eq_of_mem_set member with before | rfl
      · exact held.unsent r q request dropped e before
      · exact fun has => held.unsent r q request dropped c old (works.fewer.subset has)
    · rw [dropped] at inside
      obtain ⟨queued,taken,emptied⟩ := works.dropped r inside
      intro has
      obtain ⟨j,at_⟩ := List.getElem?_of_mem member
      rcases replace_get there at_ with ⟨rfl,rfl⟩ | ⟨apart,others⟩
      · rw [taken,emptied,List.append_nil] at has
        exact Nat.lt_irrefl _ ((List.pairwise_append.mp (held.sound c old).order).2.2 r has r queued)
      · obtain ⟨_,one,first⟩ := held.known j e others r has
        obtain ⟨_,two,second⟩ := held.known i c there r (List.mem_append_right _ queued)
        rw [one] at two
        cases two
        exact apart (first.symm.trans second)

end

-- What the operations have come to after a step: at most one more, that of the request
-- served up to now.
theorem worked_told {i : Nat} {c d : Connection} {settled : Connection.Settlements Result} {more : List (Nat × Outcome Result)}
    (held : w.Held) (told : w.Told) (there : w.connections[i]? = some c) (works : Connection.Works c d settled)
    (result : ∀ r value, (r,.result value) ∈ settled → (r,.result value) ∈ more)
    (error : ∀ r error, (r,.failed (.mcp error)) ∈ settled → (r,.mcp error) ∈ more)
    (own : more = [] ∨ ∃ r outcome, more = [(r,outcome)] ∧ c.phase = .serving ∧ c.current = some r ∧ d.phase ≠ .serving) :
    ({w.worked i d settled with outcomes := w.outcomes ++ more} : World Result).Told := by
  have old := List.mem_of_getElem? there
  refine ⟨?_,?_,?_,?_⟩
  · intro r q found value is_
    obtain ⟨before,request,_,how⟩ := worked_request works found
    rcases how with ⟨rfl,_⟩ | ⟨_,inside⟩
    · exact List.mem_append_left _ (told.result r q request value is_)
    · rw [is_] at inside
      exact List.mem_append_right _ (result r value inside)
  · intro r q found failure is_
    obtain ⟨before,request,_,how⟩ := worked_request works found
    rcases how with ⟨rfl,_⟩ | ⟨_,inside⟩
    · exact List.mem_append_left _ (told.error r q request failure is_)
    · rw [is_] at inside
      exact List.mem_append_right _ (error r failure inside)
  · rw [List.map_append]
    rcases own with rfl | ⟨r,outcome,rfl,serving,current,_⟩
    · simpa using told.once
    · refine List.nodup_append.mpr ⟨told.once,List.nodup_singleton _,?_⟩
      intro one answered two last same
      cases List.mem_singleton.mp last
      cases same
      obtain ⟨q,e,request,its,_,apart⟩ := told.answered r answered
      obtain ⟨q',request',home⟩ := held.known i c there r (List.mem_append_left _ ((held.sound c old).current r current))
      rw [request] at request'
      cases request'
      rw [home,there] at its
      cases its
      exact apart serving current
  · intro r answered
    rw [List.map_append] at answered
    rcases List.mem_append.mp answered with before | new
    · obtain ⟨q,e,request,its,taken,apart⟩ := told.answered r before
      obtain ⟨later,found,home,_⟩ := worked_later (i := i) works request
      refine ⟨later,?_⟩
      by_cases same : q.home = i
      · rw [same,there] at its
        cases its
        refine ⟨d,found,?_,works.grown taken,fun serving current => works.fresh serving r current taken⟩
        rw [home,same]
        change (w.worked i d settled).connections[i]? = some d
        rw [worked_connections]
        exact replace_self there d
      · refine ⟨e,found,?_,taken,apart⟩
        rw [home]
        change (w.worked i d settled).connections[q.home]? = some e
        rw [worked_connections]
        exact (replace_other same d).trans its
    · rcases own with rfl | ⟨one,outcome,rfl,serving,current,leaves⟩
      · cases new
      · cases List.mem_singleton.mp new
        have taken := (held.sound c old).current one current
        obtain ⟨q,request,home⟩ := held.known i c there one (List.mem_append_left _ taken)
        obtain ⟨later,found,same,_⟩ := worked_later (i := i) works request
        refine ⟨later,d,found,?_,works.grown taken,fun still => absurd still leaves⟩
        rw [same,home]
        change (w.worked i d settled).connections[i]? = some d
        rw [worked_connections]
        exact replace_self there d

-- What a call has stays as the world goes on.
theorem tried_later {v : World Result} {call : Call Result} (tried : w.Tried call)
    (later : ∀ (r : Nat) q, w.requests[r]? = some q → ∃ new, v.requests[r]? = some new ∧ (q.future.done = true → new = q))
    (more : w.outcomes ⊆ v.outcomes) : v.Tried call := by
  obtain ⟨last,q,made,request,chain,answer⟩ := tried
  obtain ⟨new,found,same⟩ := later last q request
  refine ⟨last,new,made,found,?_,?_⟩
  · rcases chain with one | ⟨first,error,two,expired,there⟩
    · exact .inl one
    · exact .inr ⟨first,error,two,expired,more there⟩
  · intro finished
    rcases answer finished with told | gone
    · rw [same (told ▸ finished)]
      exact .inl told
    · exact .inr gone

-- What callers and `close` do: requests and connections are added, a queue gets longer.
structure Grows (w v : World Result) : Prop where
  sound : ∀ d ∈ v.connections, d.Sound
  later : ∀ (r : Nat) q, w.requests[r]? = some q → v.requests[r]? = some q
  fresh : ∀ (r : Nat) q, v.requests[r]? = some q → w.requests[r]? = some q ∨
    w.requests[r]? = none ∧ q.future = .pending ∧ ∃ d, v.connections[q.home]? = some d ∧ r ∈ d.held
  outcomes : v.outcomes = w.outcomes
  kept : ∀ (j : Nat) c, w.connections[j]? = some c → ∃ d, v.connections[j]? = some d ∧ d.taken = c.taken ∧ d.phase = c.phase ∧
    d.current = c.current ∧ c.held ⊆ d.held
  back : ∀ (j : Nat) d, v.connections[j]? = some d → ∀ r ∈ d.taken ++ d.waiting,
    (∃ c, w.connections[j]? = some c ∧ r ∈ c.taken ++ c.waiting) ∨ ∃ q,
      v.requests[r]? = some q ∧ w.requests[r]? = none ∧ q.home = j

theorem Grows.held (grows : w.Grows v) (held : w.Held) : v.Held := by
  refine ⟨grows.sound,?_,?_,?_⟩
  · intro j d its r inside
    rcases grows.back j d its r inside with ⟨c,before,old⟩ | ⟨q,request,_,home⟩
    · obtain ⟨q,request,home⟩ := held.known j c before r old
      exact ⟨q,grows.later r q request,home⟩
    · exact ⟨q,request,home⟩
  · intro r q request waits
    rcases grows.fresh r q request with before | ⟨_,_,placed⟩
    · obtain ⟨c,its,has⟩ := held.located r q before waits
      obtain ⟨d,now,_,_,_,more⟩ := grows.kept q.home c its
      exact ⟨d,now,more has⟩
    · exact placed
  · intro r q request dropped d member inside
    obtain ⟨j,its⟩ := List.getElem?_of_mem member
    rcases grows.fresh r q request with before | ⟨_,pending,_⟩
    · rcases grows.back j d its r inside with ⟨c,old,has⟩ | ⟨_,_,absent,_⟩
      · exact held.unsent r q before dropped c (List.mem_of_getElem? old) has
      · rw [before] at absent
        cases absent
    · rw [dropped] at pending
      cases pending

theorem Grows.told (grows : w.Grows v) (told : w.Told) : v.Told := by
  refine ⟨?_,?_,?_,?_⟩
  · intro r q request value is_
    rw [grows.outcomes]
    rcases grows.fresh r q request with before | ⟨_,pending,_⟩
    · exact told.result r q before value is_
    · rw [is_] at pending
      cases pending
  · intro r q request error is_
    rw [grows.outcomes]
    rcases grows.fresh r q request with before | ⟨_,pending,_⟩
    · exact told.error r q before error is_
    · rw [is_] at pending
      cases pending
  · rw [grows.outcomes]
    exact told.once
  · intro r answered
    rw [grows.outcomes] at answered
    obtain ⟨q,c,request,its,taken,apart⟩ := told.answered r answered
    obtain ⟨d,now,same,phase,current,_⟩ := grows.kept q.home c its
    exact ⟨q,d,grows.later r q request,now,same ▸ taken,by rw [phase,current]; exact apart⟩

theorem Grows.tried (grows : w.Grows v) {call : Call Result} (tried : w.Tried call) : v.Tried call :=
  tried_later tried (fun r q request => ⟨q,grows.later r q request,
    fun _ => rfl⟩) (by rw [grows.outcomes]; exact List.Subset.refl _)

theorem connection_grows (held : w.Held) (label : String) : w.Grows (w.connection label).1 ∧
    ∃ c, (w.connection label).1.connections[(w.connection label).2]? = some c ∧ c.closed = false := by
  unfold connection
  split
  · rename_i i opened
    obtain ⟨_,there⟩ := Option.filter_eq_some_iff.mp opened
    obtain ⟨c,its,alive⟩ : ∃ c, w.connections[i]? = some c ∧ c.closed = false := by
      cases found : w.connections[i]? with
      | none => simp [found] at there
      | some c => exact ⟨c,rfl,by simpa [found] using there⟩
    refine ⟨⟨held.sound,fun _ _ request => request,fun _ _ request => .inl request,rfl,?_,?_⟩,c,its,alive⟩
    · intro j c its
      exact ⟨c,its,rfl,rfl,rfl,List.Subset.refl _⟩
    · intro j d its r inside
      exact .inl ⟨d,its,inside⟩
  · refine ⟨⟨?_,fun _ _ request => request,fun _ _ request => .inl request,rfl,?_,?_⟩,.new,?_,rfl⟩
    · intro d member
      rcases List.mem_append.mp member with before | last
      · exact held.sound d before
      · cases List.mem_singleton.mp last
        exact Connection.new_sound
    · intro j c its
      exact ⟨c,get_snoc its _,rfl,rfl,rfl,List.Subset.refl _⟩
    · intro j d its r inside
      rcases snoc_get its with before | ⟨_,rfl⟩
      · exact .inl ⟨d,before,inside⟩
      · cases inside
    · exact List.getElem?_concat_length

theorem Grows.trans {u : World Result} (one : u.Grows w) (two : w.Grows v) : u.Grows v := by
  refine ⟨two.sound,fun r q request => two.later r q (one.later r q request),?_,two.outcomes.trans one.outcomes,?_,?_⟩
  · intro r q request
    rcases two.fresh r q request with before | ⟨absent,pending,placed⟩
    · rcases one.fresh r q before with first | ⟨absent,pending,d,its,has⟩
      · exact .inl first
      · obtain ⟨e,now,_,_,_,more⟩ := two.kept q.home d its
        exact .inr ⟨absent,pending,e,now,more has⟩
    · refine .inr ⟨?_,pending,placed⟩
      cases first : u.requests[r]? with
      | none => rfl
      | some old =>
          rw [one.later r old first] at absent
          cases absent
  · intro j c its
    obtain ⟨d,middle,taken,phase,current,more⟩ := one.kept j c its
    obtain ⟨e,now,taken',phase',current',more'⟩ := two.kept j d middle
    exact ⟨e,now,taken'.trans taken,phase'.trans phase,current'.trans current,fun r has => more' (more has)⟩
  · intro j d its r inside
    rcases two.back j d its r inside with ⟨c,middle,has⟩ | ⟨q,request,absent,home⟩
    · rcases one.back j c middle r has with first | ⟨q,request,absent,home⟩
      · exact .inl first
      · exact .inr ⟨q,two.later r q request,absent,home⟩
    · refine .inr ⟨q,request,?_,home⟩
      cases first : u.requests[r]? with
      | none => rfl
      | some old =>
          rw [one.later r old first] at absent
          cases absent

theorem modify_get {i j : Nat} {f : Connection → Connection} {d : Connection} (its : (w.connections.modify i f)[j]? = some d) :
    ∃ c, w.connections[j]? = some c ∧ d = if i = j then f c else c := by
  rw [List.getElem?_modify] at its
  obtain ⟨c,there,rfl⟩ := Option.map_eq_some_iff.mp its
  exact ⟨c,there,rfl⟩

theorem queue_grows (held : w.Held) {i : Nat} {c : Connection} (there : w.connections[i]? = some c) (alive : c.closed = false) :
    w.Grows (w.queue i) := by
  have new : (w.connections.modify i (·.put w.requests.length))[i]? = some (c.put w.requests.length) := by
    rw [List.getElem?_modify,there]
    simp
  have earlier : ∀ r ∈ c.taken ++ c.waiting, r < w.requests.length := by
    intro r inside
    obtain ⟨q,request,_⟩ := held.known i c there r inside
    exact (List.getElem?_eq_some_iff.mp request).1
  refine ⟨?_,fun r q request => get_snoc request _,?_,rfl,?_,?_⟩
  · intro d member
    obtain ⟨j,its⟩ := List.getElem?_of_mem member
    obtain ⟨e,before,rfl⟩ := modify_get its
    split
    · rename_i same
      rw [← same,there] at before
      cases before
      exact Connection.put_sound (held.sound c (List.mem_of_getElem? there)) alive earlier
    · exact held.sound e (List.mem_of_getElem? before)
  · intro r q request
    rcases snoc_get request with before | ⟨rfl,rfl⟩
    · exact .inl before
    · refine .inr ⟨List.getElem?_eq_none (Nat.le_refl _),rfl,_,new,List.mem_append_right _ ?_⟩
      rw [Connection.put_waiting]
      exact List.mem_append_right _ (List.mem_singleton.mpr rfl)
  · intro j e its
    by_cases same : i = j
    · cases same
      rw [there] at its
      cases its
      refine ⟨_,new,rfl,rfl,rfl,?_⟩
      intro r has
      rcases List.mem_append.mp has with own | queued
      · exact List.mem_append_left _ own
      · refine List.mem_append_right _ ?_
        rw [Connection.put_waiting]
        exact List.mem_append_left _ queued
    · refine ⟨e,?_,rfl,rfl,rfl,List.Subset.refl _⟩
      change (w.connections.modify i _)[j]? = some e
      rw [List.getElem?_modify,its]
      simp [same]
  · intro j d its r inside
    obtain ⟨e,before,rfl⟩ := modify_get its
    by_cases same : i = j
    · rw [if_pos same,Connection.put_waiting,← List.append_assoc] at inside
      rcases List.mem_append.mp inside with old | last
      · exact .inl ⟨e,before,old⟩
      · cases List.mem_singleton.mp last
        exact .inr ⟨⟨i,.pending⟩,List.getElem?_concat_length,List.getElem?_eq_none (Nat.le_refl _),same⟩
    · rw [if_neg same] at inside
      exact .inl ⟨e,before,inside⟩

theorem submit_grows (held : w.Held) (label : String) : w.Grows (w.submit label).1 ∧
    (w.submit label).1.requests[(w.submit label).2]? = some ⟨(w.connection label).2,.pending⟩ := by
  obtain ⟨grows,c,there,alive⟩ := connection_grows held label
  exact ⟨grows.trans (queue_grows (grows.held held) there alive),List.getElem?_concat_length⟩

theorem close_grows (held : w.Held) (opened : List Nat) :
    w.Grows {w with connections := w.connections.mapIdx fun i c => if i ∈ opened then c.close else c} := by
  have shape : ∀ (j : Nat) d, (w.connections.mapIdx fun i c => if i ∈ opened then c.close else c)[j]? = some d →
      ∃ c, w.connections[j]? = some c ∧ d = if j ∈ opened then c.close else c := by
    intro j d its
    rw [List.getElem?_mapIdx] at its
    obtain ⟨c,there,rfl⟩ := Option.map_eq_some_iff.mp its
    exact ⟨c,there,rfl⟩
  refine ⟨?_,fun _ _ request => request,fun _ _ request => .inl request,rfl,?_,?_⟩
  · intro d member
    obtain ⟨j,its⟩ := List.getElem?_of_mem member
    obtain ⟨c,there,rfl⟩ := shape j d its
    have sound := held.sound c (List.mem_of_getElem? there)
    split
    · exact Connection.close_sound sound
    · exact sound
  · intro j c its
    refine ⟨if j ∈ opened then c.close else c,?_,?_⟩
    · change (w.connections.mapIdx _)[j]? = _
      rw [List.getElem?_mapIdx,its]
      rfl
    · split
      · obtain ⟨taken,phase,current⟩ := Connection.close_same c
        exact ⟨taken,phase,current,by rw [Connection.close_held]; exact List.Subset.refl _⟩
      · exact ⟨rfl,rfl,rfl,List.Subset.refl _⟩
  · intro j d its r inside
    obtain ⟨c,there,rfl⟩ := shape j d its
    refine .inl ⟨c,there,?_⟩
    split at inside
    · rw [(Connection.close_same c).1,Connection.close_waiting] at inside
      exact inside
    · exact inside

theorem cancelled_cases (last r : Nat) (q : Request Result) : (settleOne r q (last,.cancelled)).home = q.home ∧
    (q.future.done = true → settleOne r q (last,.cancelled) = q) ∧
    (settleOne r q (last,.cancelled) = q ∨ (settleOne r q (last,.cancelled)).future = .cancelled) := by
  unfold settleOne
  split
  · rename_i hit
    refine ⟨rfl,?_,.inr rfl⟩
    intro finished
    rw [hit.2] at finished
    cases finished
  · exact ⟨rfl,fun _ => rfl,.inl rfl⟩

-- A caller that is cancelled leaves the task as it is.
theorem cancel_held (held : w.Held) (last : Nat) : (w.settle (last,.cancelled)).Held := by
  refine ⟨held.sound,?_,?_,?_⟩
  · intro i c there r inside
    obtain ⟨q,request,home⟩ := held.known i c there r inside
    exact ⟨_,by rw [settle_get,request]; rfl,(cancelled_cases last r q).1.trans home⟩
  · intro r q request waits
    rw [settle_get] at request
    obtain ⟨old,before,rfl⟩ := Option.map_eq_some_iff.mp request
    obtain ⟨_,_,same | gone⟩ := cancelled_cases last r old
    · rw [same] at waits ⊢
      exact held.located r old before waits
    · rw [gone] at waits
      cases waits
  · intro r q request dropped
    rw [settle_get] at request
    obtain ⟨old,before,rfl⟩ := Option.map_eq_some_iff.mp request
    obtain ⟨_,_,same | gone⟩ := cancelled_cases last r old
    · rw [same] at dropped
      exact held.unsent r old before dropped
    · rw [gone] at dropped
      cases dropped

theorem cancel_told (told : w.Told) (last : Nat) : (w.settle (last,.cancelled)).Told := by
  refine ⟨?_,?_,told.once,?_⟩
  · intro r q request value is_
    rw [settle_get] at request
    obtain ⟨old,before,rfl⟩ := Option.map_eq_some_iff.mp request
    obtain ⟨_,_,same | gone⟩ := cancelled_cases last r old
    · rw [same] at is_
      exact told.result r old before value is_
    · rw [gone] at is_
      cases is_
  · intro r q request error is_
    rw [settle_get] at request
    obtain ⟨old,before,rfl⟩ := Option.map_eq_some_iff.mp request
    obtain ⟨_,_,same | gone⟩ := cancelled_cases last r old
    · rw [same] at is_
      exact told.error r old before error is_
    · rw [gone] at is_
      cases is_
  · intro r answered
    obtain ⟨q,c,request,its,rest⟩ := told.answered r answered
    refine ⟨_,c,by rw [settle_get,request]; rfl,?_,rest⟩
    rw [(cancelled_cases last r q).1]
    exact its

theorem cancel_later (last : Nat) (r : Nat) (q : Request Result) (request : w.requests[r]? = some q) :
    ∃ new, (w.settle (last,.cancelled)).requests[r]? = some new ∧ (q.future.done = true → new = q) :=
  ⟨_,by rw [settle_get,request]; rfl,(cancelled_cases last r q).2.1⟩

-- One call is updated: what is so of the others stays.
theorem update_kept (kept : w.Kept) {k : Nat} {call : Call Result} (tried : w.Tried call) : (w.update k call).Kept := by
  refine ⟨⟨kept.held.sound,kept.held.known,kept.held.located,kept.held.unsent⟩,
    ⟨kept.told.result,kept.told.error,kept.told.once,kept.told.answered⟩,?_⟩
  intro other member
  rcases List.mem_or_eq_of_mem_set member with before | rfl
  · exact kept.tried other before
  · exact tried

theorem Grows.keeps (grows : w.Grows v) (kept : w.Kept) (calls : v.calls = w.calls) : v.Kept := by
  refine ⟨grows.held kept.held,grows.told kept.told,?_⟩
  intro call member
  rw [calls] at member
  exact grows.tried (kept.tried call member)

theorem connection_calls (label : String) : (w.connection label).1.calls = w.calls := by
  unfold connection
  split
  · rfl
  · rfl

theorem submit_calls (label : String) : (w.submit label).1.calls = w.calls := connection_calls label

theorem call_kept (kept : w.Kept) (label : String) :
    ({(w.submit label).1 with calls := (w.submit label).1.calls ++ [⟨label,[(w.submit label).2],
      .pending⟩]} : World Result).Kept := by
  obtain ⟨grows,request⟩ := submit_grows kept.held label
  have now := grows.keeps kept (submit_calls label)
  refine ⟨⟨now.held.sound,now.held.known,now.held.located,now.held.unsent⟩,
    ⟨now.told.result,now.told.error,now.told.once,now.told.answered⟩,?_⟩
  intro call member
  rcases List.mem_append.mp member with before | new
  · exact now.tried call before
  · cases List.mem_singleton.mp new
    exact ⟨_,_,rfl,request,.inl rfl,fun finished => by cases finished⟩

theorem retried_expired {failure : Failure} (retried : failure.retried = true) :
    ∃ error, failure = .mcp error ∧ error.sessionExpired = true := by
  cases failure with
  | mcp error => exact ⟨error,rfl,retried⟩
  | timeout | other _ | connectionClosed => cases retried

theorem resume_kept (kept : w.Kept) {k : Nat} (step : w.resume k = some v) : v.Kept := by
  simp only [resume,Option.bind_eq_bind,Option.bind_eq_some_iff] at step
  obtain ⟨call,there,last,made,q,request,step⟩ := step
  split at step
  · cases step
  · rename_i opened
    cases step
    obtain ⟨last',q',made',request',chain,answer⟩ := kept.tried call (List.mem_of_getElem? there)
    rw [made] at made'
    cases made'
    rw [request] at request'
    cases request'
    have heard : (w.update k {call with answer := q.future}).Kept :=
      update_kept kept ⟨last,q,made,request,chain,fun _ => .inl rfl⟩
    unfold hear
    split
    · rename_i failure failed
      split
      · rename_i again
        obtain ⟨error,rfl,expired⟩ := retried_expired again.1
        obtain ⟨grows,new⟩ := submit_grows kept.held call.label
        have now := grows.keeps kept (submit_calls call.label)
        have first : call.made = [last] := by
          obtain ⟨only,single⟩ := List.length_eq_one_iff.mp again.2
          rw [single] at made ⊢
          exact congrArg (fun one => [one]) (Option.some.inj made)
        refine update_kept now ⟨_,_,List.getLast?_concat,new,.inr ⟨last,error,by rw [first]; rfl,expired,?_⟩,?_⟩
        · rw [grows.outcomes]
          exact kept.told.error last q request error failed
        · intro finished
          exact absurd (show call.answer.done || !q.future.done from by rw [finished]; rfl) opened
      · rw [failed] at heard
        exact heard
    · exact heard

theorem cancel_kept (kept : w.Kept) {k last : Nat} {call : Call Result} (there : w.calls[k]? = some call) :
    ((w.settle (last,.cancelled)).update k {call with answer := .cancelled}).Kept := by
  have now : (w.settle (last,.cancelled)).Kept := by
    refine ⟨cancel_held kept.held last,cancel_told kept.told last,?_⟩
    intro other member
    exact tried_later (kept.tried other member) (cancel_later last) (List.Subset.refl _)
  obtain ⟨latest,q,made,request,chain,_⟩ := now.tried call (List.mem_of_getElem? there)
  exact update_kept now ⟨latest,q,made,request,chain,fun _ => .inr rfl⟩

theorem worked_kept {i : Nat} {c d : Connection} {settled : Connection.Settlements Result} {more : List (Nat × Outcome Result)}
    (kept : w.Kept) (there : w.connections[i]? = some c) (works : Connection.Works c d settled)
    (result : ∀ r value, (r,.result value) ∈ settled → (r,.result value) ∈ more)
    (error : ∀ r error, (r,.failed (.mcp error)) ∈ settled → (r,.mcp error) ∈ more)
    (own : more = [] ∨ ∃ r outcome, more = [(r,outcome)] ∧ c.phase = .serving ∧ c.current = some r ∧ d.phase ≠ .serving) :
    ({w.worked i d settled with outcomes := w.outcomes ++ more} : World Result).Kept := by
  have held := worked_held kept.held there works
  refine ⟨⟨held.sound,held.known,held.located,held.unsent⟩,worked_told kept.held kept.told there works result error own,?_⟩
  intro call member
  have same : (w.worked i d settled).calls = w.calls := (settleAll_same settled).2.2.1
  refine tried_later (kept.tried call (same ▸ member)) ?_ (List.subset_append_left _ _)
  intro r q request
  obtain ⟨new,found,_,stays⟩ := worked_later (i := i) works request
  exact ⟨new,found,stays⟩

-- A step of a task that ends no operation.
theorem quiet_kept {i : Nat} {c d : Connection} {settled : Connection.Settlements Result} (kept : w.Kept)
    (there : w.connections[i]? = some c) (works : Connection.Works c d settled)
    (silent : Connection.Silent settled) :
    (w.worked i d settled).Kept := by
  have whole : ({w.worked i d settled with outcomes := w.outcomes ++ []} : World Result).Kept := worked_kept kept there works
    (fun r value inside => absurd rfl ((silent _ inside).1 value)) (fun r error inside => absurd rfl ((silent _ inside).2 error))
    (.inl rfl)
  have told : (w.worked i d settled).outcomes = w.outcomes := (settleAll_same settled).2.2.2
  have same : ({w.worked i d settled with outcomes := w.outcomes ++ []} : World Result) = w.worked i d settled := by
    rw [List.append_nil,← told]
  rwa [same] at whole

theorem next_kept (kept : w.Kept) {act : Act Result} (step : w.next act = some v) : v.Kept := by
  cases act with
  | call label =>
      cases step
      exact call_kept kept label
  | cancel k =>
      simp only [next,Option.bind_eq_bind,Option.bind_eq_some_iff] at step
      obtain ⟨call,there,last,_,step⟩ := step
      split at step
      · cases step
      · cases step
        exact cancel_kept kept there
  | close =>
      cases step
      exact (close_grows kept.held _).keeps kept rfl
  | resume k => exact resume_kept kept step
  | entered i raised =>
      simp only [next,Option.bind_eq_bind,Option.bind_eq_some_iff] at step
      obtain ⟨c,there,⟨d,settled⟩,stepped,made⟩ := step
      cases made
      have works := Connection.entered_works (kept.held.sound c (List.mem_of_getElem? there)) stepped
      exact quiet_kept kept there works (Connection.entered_silent stepped)
  | take i =>
      simp only [next,Option.bind_eq_bind,Option.bind_eq_some_iff] at step
      obtain ⟨c,there,d,stepped,made⟩ := step
      cases made
      have works : Connection.Works c d ([] : Connection.Settlements Result) :=
        Connection.take_works (kept.held.sound c (List.mem_of_getElem? there)) stepped
      exact quiet_kept kept there works (fun _ inside => absurd inside List.not_mem_nil)
  | answer i outcome =>
      simp only [next,Option.bind_eq_bind,Option.bind_eq_some_iff] at step
      obtain ⟨c,there,request,current,⟨d,settled⟩,stepped,made⟩ := step
      cases made
      have works := Connection.answer_works (kept.held.sound c (List.mem_of_getElem? there)) stepped
      obtain ⟨serving,leaves,result,error⟩ := Connection.answer_tells current stepped
      exact worked_kept kept there works result error (.inr ⟨request,outcome,rfl,serving,current,leaves⟩)
  | leave i raised =>
      simp only [next,Option.bind_eq_bind,Option.bind_eq_some_iff] at step
      obtain ⟨c,there,⟨d,settled⟩,stepped,made⟩ := step
      cases made
      have works := Connection.leave_works (kept.held.sound c (List.mem_of_getElem? there)) stepped
      exact quiet_kept kept there works (Connection.leave_silent stepped)

-- What is left to do for the calls that wait.
def work (w : World Result) : Nat := total Connection.work w.connections + total Call.work w.calls

def Rest (w : World Result) : Prop := ∀ call ∈ w.calls, call.answer.done = true

theorem worked_spends {i : Nat} {c d : Connection} {settled : Connection.Settlements Result} (there : w.connections[i]? = some c)
    (less : d.work < c.work) : (w.worked i d settled).work < w.work := by
  have moved : total Connection.work (w.connections.set i d) + c.work = total Connection.work w.connections + d.work :=
    total_set there d
  have connections : (w.worked i d settled).connections = w.connections.set i d := worked_connections
  have calls : (w.worked i d settled).calls = w.calls := (settleAll_same settled).2.2.1
  rw [work,work,connections,calls]
  omega

theorem connection_work (label : String) :
    total Connection.work (w.connection label).1.connections ≤ total Connection.work w.connections + 4 := by
  unfold connection
  split
  · exact Nat.le_add_right _ _
  · rw [total_snoc]
    exact Nat.le_refl _

theorem submit_work (held : w.Held) (label : String) :
    total Connection.work (w.submit label).1.connections ≤ total Connection.work w.connections + 6 := by
  obtain ⟨_,c,there,_⟩ := connection_grows held label
  have put : total Connection.work (w.submit label).1.connections + c.work =
      total Connection.work (w.connection label).1.connections + (c.put (w.connection label).1.requests.length).work :=
    total_modify there _
  have before : total Connection.work (w.connection label).1.connections ≤ _ := connection_work label
  rw [Connection.put_work] at put
  omega

theorem update_work {k : Nat} {call new : Call Result} (there : w.calls[k]? = some call) :
    (w.update k new).work + call.work = w.work + new.work := by
  have moved : total Call.work (w.calls.set k new) + call.work = total Call.work w.calls + new.work := total_set there new
  simp only [work,update]
  omega

theorem hear_spends (kept : w.Kept) {k : Nat} {call : Call Result} (there : w.calls[k]? = some call)
    (opened : call.answer.done = false) {future : Future Result} (finished : future.done = true) :
    (w.hear k call future).work < w.work := by
  have worth : 1 ≤ call.work := by
    simp only [Call.work,opened,Bool.false_eq_true,if_false]
    split
    · omega
    · omega
  have answered : (w.update k {call with answer := future}).work < w.work := by
    have moved := @update_work _ w k call {call with answer := future} there
    have none_ : ({call with answer := future} : Call Result).work = 0 := by
      simp [Call.work,finished]
    omega
  unfold hear
  split
  · rename_i failure
    split
    · rename_i again
      have same : (w.submit call.label).1.calls[k]? = some call := by
        rw [submit_calls]
        exact there
      have moved := @update_work _ _ k call {call with made := call.made ++ [(w.submit call.label).2]} same
      have more := submit_work kept.held call.label
      have once : call.work = 8 := by simp [Call.work,opened,again.2]
      have twice : ({call with made := call.made ++ [(w.submit call.label).2]} : Call Result).work = 1 := by
        simp [Call.work,opened,again.2]
      have whole : (w.submit call.label).1.work ≤ w.work + 6 := by
        rw [work,work,submit_calls]
        omega
      change ((w.submit call.label).1.update k {call with made := call.made ++ [(w.submit call.label).2]}).work < w.work
      omega
    · exact answered
  · exact answered

theorem lowers (kept : w.Kept) {act : Act Result} (own : act.own = true) (step : w.next act = some v) : v.work < w.work := by
  cases act with
  | call _ | cancel _ | close => cases own
  | resume k =>
      simp only [next,resume,Option.bind_eq_bind,Option.bind_eq_some_iff] at step
      obtain ⟨call,there,last,_,q,_,step⟩ := step
      split at step
      · cases step
      · rename_i opened
        simp only [Bool.or_eq_true,Bool.not_eq_true',not_or,Bool.not_eq_true,Bool.not_eq_false] at opened
        cases step
        exact hear_spends kept there opened.1 opened.2
  | entered i raised =>
      simp only [next,Option.bind_eq_bind,Option.bind_eq_some_iff] at step
      obtain ⟨c,there,⟨d,settled⟩,stepped,made⟩ := step
      cases made
      exact worked_spends there (Connection.entered_spends stepped)
  | take i =>
      simp only [next,Option.bind_eq_bind,Option.bind_eq_some_iff] at step
      obtain ⟨c,there,d,stepped,made⟩ := step
      cases made
      exact @worked_spends _ w i c d [] there (Connection.take_spends stepped)
  | answer i outcome =>
      simp only [next,Option.bind_eq_bind,Option.bind_eq_some_iff] at step
      obtain ⟨c,there,request,_,⟨d,settled⟩,stepped,made⟩ := step
      cases made
      exact worked_spends there (Connection.answer_spends stepped)
  | leave i raised =>
      simp only [next,Option.bind_eq_bind,Option.bind_eq_some_iff] at step
      obtain ⟨c,there,⟨d,settled⟩,stepped,made⟩ := step
      cases made
      exact worked_spends there (Connection.leave_spends stepped)

theorem moves (kept : w.Kept) (waits : ¬w.Rest) : ∃ act v, act.own = true ∧ w.next act = some v ∧ v.work < w.work := by
  have able : ∃ act v, act.own = true ∧ w.next act = some v := by
    obtain ⟨call,member,opened⟩ : ∃ call ∈ w.calls, call.answer.done = false := by
      simpa [Rest] using waits
    obtain ⟨k,there⟩ := List.getElem?_of_mem member
    obtain ⟨last,q,made,request,_,_⟩ := kept.tried call member
    cases finished : q.future.done with
    | true => exact ⟨.resume k,_,rfl,by simp [next,resume,there,made,request,opened,finished]; rfl⟩
    | false =>
        obtain ⟨c,its,has⟩ := kept.held.located last q request finished
        have sound := kept.held.sound c (List.mem_of_getElem? its)
        cases phase : c.phase with
        | entering => exact ⟨.entered q.home none,_,rfl,by simp [next,its,Connection.entered,phase]; rfl⟩
        | waiting =>
            obtain ⟨d,taken⟩ := Connection.take_able phase has
            exact ⟨.take q.home,_,rfl,by simp [next,its,taken]; rfl⟩
        | serving =>
            obtain ⟨current,own⟩ := Option.isSome_iff_exists.mp (sound.serving phase)
            exact ⟨.answer q.home .cancelled,_,rfl,by simp [next,its,Connection.answer,phase,own,Outcome.cancels]; rfl⟩
        | leaving way => exact ⟨.leave q.home none,_,rfl,by simp [next,its,Connection.leave,phase]; rfl⟩
        | ended =>
            rw [Connection.held,phase,(sound.left phase).2] at has
            cases has
  obtain ⟨act,v,own,step⟩ := able
  exact ⟨act,v,own,step,lowers kept own step⟩

variable {acts : List (Act Result)}

theorem run_kept (ran : execute next start acts = some w) : w.Kept :=
  execute_invariant (fun _ _ _ kept step => next_kept kept step) start_kept ran

-- Callers, the tasks of the connections, their servers and `close` in any order: operations
-- begin in the order of their requests and each at most once; a caller gets the result of
-- its own operation, is retried once at most and only after the server gave the session up,
-- and one that is told the connection closed had nothing sent; a task is cancelled only
-- once it serves, and one that has ended leaves nobody waiting.
theorem calls_kept (ran : execute next start acts = some w) :
    (∀ c ∈ w.connections, c.taken.Pairwise (· < ·) ∧ (c.phase = .entering ∨ c.phase = .waiting → c.cancelling = false)) ∧
    (∀ (i j : Nat) c d r, w.connections[i]? = some c → w.connections[j]? = some d → r ∈ c.taken → r ∈ d.taken → i = j) ∧
    (w.outcomes.map Prod.fst).Nodup ∧
    (∀ call ∈ w.calls, ∃ last, call.made.getLast? = some last ∧
      (call.made = [last] ∨ ∃ first error, call.made = [first,last] ∧ error.sessionExpired = true ∧ (first,
        .mcp error) ∈ w.outcomes) ∧
      (∀ value, call.answer = .result value → (last,.result value) ∈ w.outcomes) ∧
      (call.answer = .failed .connectionClosed → ∀ c ∈ w.connections, last ∉ c.taken)) ∧
    ∀ (r : Nat) q, w.requests[r]? = some q → q.future = .pending → ∃ c, w.connections[q.home]? = some c ∧ c.phase ≠ .ended := by
  obtain ⟨held,told,tried⟩ := run_kept ran
  refine ⟨?_,?_,told.once,?_,?_⟩
  · intro c member
    have sound := held.sound c member
    exact ⟨(List.pairwise_append.mp sound.order).1,fun early => (sound.quiet early).2⟩
  · intro i j c d r one two first second
    obtain ⟨q,request,home⟩ := held.known i c one r (List.mem_append_left _ first)
    obtain ⟨q',request',home'⟩ := held.known j d two r (List.mem_append_left _ second)
    rw [request] at request'
    cases request'
    exact home.symm.trans home'
  · intro call member
    obtain ⟨last,q,made,request,chain,answer⟩ := tried call member
    have own : ∀ future : Future Result, call.answer = future → future.done = true → future ≠ .cancelled → q.future = future := by
      intro future is_ done other
      rcases answer (is_ ▸ done) with same | gone
      · exact same.symm.trans is_
      · exact absurd (is_.symm.trans gone) other
    refine ⟨last,made,chain,?_,?_⟩
    · intro value is_
      exact told.result last q request value (own _ is_ rfl (by simp))
    · intro is_ c there taken
      exact held.unsent last q request (own _ is_ rfl (by simp)) c there (List.mem_append_left _ taken)
  · intro r q request pending
    obtain ⟨c,its,has⟩ := held.located r q request (by rw [pending]; rfl)
    refine ⟨c,its,?_⟩
    intro ended
    rw [Connection.held,ended,((held.sound c (List.mem_of_getElem? its)).left ended).2] at has
    cases has

def terminated : McpError := ⟨invalidRequest,"Session terminated"⟩

def expiring : List (Act Nat) := [.call "search",.entered 0 none,.take 0,.answer 0 (.mcp terminated),.resume 0,.entered 1 none,
  .take 1,.answer 1 (.result 5),.leave 0 none,.resume 0]

theorem calls_kept_expired : ∃ w, execute next start expiring = some w ∧ w.calls = [⟨"search",[0,1],.result 5⟩] ∧
    w.outcomes = [(0,.mcp terminated),(1,.result 5)] ∧ (w.outcomes.map Prod.fst).Nodup := by
  obtain ⟨w,ran,calls,outcomes⟩ : ∃ w, execute next start expiring = some w ∧ w.calls = [⟨"search",[0,1],.result 5⟩] ∧
    w.outcomes = [(0,.mcp terminated),(1,.result 5)] := ⟨_,rfl,rfl,rfl⟩
  exact ⟨w,ran,calls,outcomes,(calls_kept ran).2.2.1⟩

-- From any state, whatever was closed or cancelled: with no new caller, the steps that are
-- left are bounded, one of them is there as long as a caller waits, and so every caller is
-- answered.
theorem calls_end (ran : execute next start acts = some w) :
    (∀ more v, (∀ act ∈ more, act.own = true) → execute next w more = some v → more.length ≤ w.work) ∧
    ((∃ call ∈ w.calls, call.answer.done = false) → ∃ act v, act.own = true ∧ w.next act = some v) ∧
    ∃ more v, (∀ act ∈ more, act.own = true) ∧ execute next w more = some v ∧ ∀ call ∈ v.calls, call.answer.done = true := by
  have kept := run_kept ran
  refine ⟨?_,?_,?_⟩
  · intro more v own goes
    have lowered : ∀ s (act : Act Result) t, Kept s → act.own = true → next s act = some t → work t < work s :=
      fun _ _ _ kept own step => lowers kept own step
    have spent := execute_spends work (fun _ _ _ kept step => next_kept kept step) lowered kept own goes
    omega
  · rintro ⟨call,member,opened⟩
    have waits : ¬w.Rest := by
      intro rests
      have done := rests call member
      rw [opened] at done
      cases done
    obtain ⟨act,v,own,step,_⟩ := moves kept waits
    exact ⟨act,v,own,step⟩
  · exact execute_rests work (fun _ _ _ kept _ step => next_kept kept step) (fun _ kept waits => moves kept waits) kept

def closing : List (Act Nat) := [.call "search",.call "search",.entered 0 none,.take 0,.close]

theorem calls_end_closed : ∃ w, execute next start closing = some w ∧ w.calls.length = 2 ∧
    ∃ more v, (∀ act ∈ more, act.own = true) ∧ execute next w more = some v ∧ ∀ call ∈ v.calls, call.answer.done = true := by
  obtain ⟨w,ran,calls⟩ : ∃ w, execute next start closing = some w ∧ w.calls.length = 2 := ⟨_,rfl,rfl⟩
  exact ⟨w,ran,calls,(calls_end ran).2.2⟩

end
end World
end Modelship.Mcp.Client
