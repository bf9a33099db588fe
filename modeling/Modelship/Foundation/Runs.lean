import Mathlib.Data.List.Basic

namespace Foundation

-- A machine is a transition function that refuses (`none`) an action it does
-- not admit. A run is a list of actions, oldest first, all of them admitted.
section
variable {State Action : Type}

def execute (next : State → Action → Option State) : State → List Action → Option State
  | s,[] => some s
  | s,action :: rest => (next s action).bind (execute next · rest)

@[simp] theorem execute_nil (next : State → Action → Option State) (s : State) :
    execute next s [] = some s := rfl

theorem execute_cons {next : State → Action → Option State} {s t : State} {action : Action}
    {rest : List Action} :
    execute next s (action :: rest) = some t ↔
      ∃ middle, next s action = some middle ∧ execute next middle rest = some t := by
  simp [execute,Option.bind_eq_some_iff]

theorem execute_append {next : State → Action → Option State} {s t : State}
    {earlier later : List Action} :
    execute next s (earlier ++ later) = some t ↔
      ∃ middle, execute next s earlier = some middle ∧ execute next middle later = some t := by
  induction earlier generalizing s with
  | nil => simp
  | cons action rest ih =>
      simp only [List.cons_append,execute_cons,ih]
      constructor
      · rintro ⟨one,first,two,second,third⟩
        exact ⟨two,⟨one,first,second⟩,third⟩
      · rintro ⟨two,⟨one,first,second⟩,third⟩
        exact ⟨one,first,two,second,third⟩

-- What every action of a run keeps where it is admitted, the run keeps.
theorem execute_within {next : State → Action → Option State} {Invariant : State → Prop}
    {s t : State} {actions : List Action}
    (kept : ∀ action ∈ actions, ∀ s t, Invariant s → next s action = some t → Invariant t)
    (start : Invariant s) (ran : execute next s actions = some t) : Invariant t := by
  induction actions generalizing s with
  | nil => cases ran; exact start
  | cons action rest ih =>
      obtain ⟨middle,first,others⟩ := execute_cons.mp ran
      refine ih ?_ (kept action List.mem_cons_self s middle start first) others
      intro later present
      exact kept later (List.mem_cons_of_mem _ present)

theorem execute_invariant {next : State → Action → Option State} {Invariant : State → Prop}
    (kept : ∀ s action t, Invariant s → next s action = some t → Invariant t)
    {s t : State} {actions : List Action} (start : Invariant s)
    (ran : execute next s actions = some t) : Invariant t :=
  execute_within (fun action _ s t => kept s action t) start ran

-- The condition is asked of each action in the state it is taken in.
def Meets (next : State → Action → Option State) (condition : State → Action → Prop) :
    State → List Action → Prop
  | _,[] => True
  | s,action :: rest => condition s action ∧ ∀ t, next s action = some t → Meets next condition t rest

instance decidableMeets (next : State → Action → Option State) (condition : State → Action → Prop)
    [∀ s action, Decidable (condition s action)] : (s : State) → (actions : List Action) →
    Decidable (Meets next condition s actions)
  | _,[] => isTrue trivial
  | s,action :: rest => match (inferInstance : Decidable (condition s action)),taken : next s action with
    | isFalse refused,_ => isFalse (fun meets => refused meets.1)
    | isTrue holds,none => isTrue ⟨holds,fun t stepped => by rw [taken] at stepped; cases stepped⟩
    | isTrue holds,some t => match decidableMeets next condition t rest with
      | isTrue later => isTrue ⟨holds,fun u stepped => by rw [taken] at stepped; cases stepped; exact later⟩
      | isFalse fails => isFalse (fun meets => fails (meets.2 t taken))

theorem meets_invariant {next : State → Action → Option State} {condition : State → Action → Prop}
    {Invariant : State → Prop}
    (kept : ∀ s action t, Invariant s → condition s action → next s action = some t → Invariant t)
    {s t : State} {actions : List Action} (start : Invariant s)
    (meets : Meets next condition s actions) (ran : execute next s actions = some t) : Invariant t := by
  induction actions generalizing s with
  | nil => cases ran; exact start
  | cons action rest ih =>
      obtain ⟨middle,first,others⟩ := execute_cons.mp ran
      exact ih (kept s action middle start meets.1 first) (meets.2 middle first) others

theorem meets_always {next : State → Action → Option State} {condition : State → Action → Prop} {actions : List Action}
    (always : ∀ action ∈ actions, ∀ s, condition s action) {s : State} : Meets next condition s actions := by
  induction actions generalizing s with
  | nil => trivial
  | cons action rest ih =>
      refine ⟨always action List.mem_cons_self s,?_⟩
      intro t _
      exact ih (fun later member => always later (List.mem_cons_of_mem _ member))

-- What the condition and an invariant of it make of an action is so of all of them.
theorem meets_under {next : State → Action → Option State} {condition other : State → Action → Prop} {Invariant : State → Prop}
    (kept : ∀ s action t, Invariant s → condition s action → next s action = some t → Invariant t)
    (makes : ∀ s action, Invariant s → condition s action → other s action) {s : State} {actions : List Action}
    (start : Invariant s) (meets : Meets next condition s actions) : Meets next other s actions := by
  induction actions generalizing s with
  | nil => trivial
  | cons action rest ih =>
      refine ⟨makes s action start meets.1,?_⟩
      intro t taken
      exact ih (kept s action t start meets.1 taken) (meets.2 t taken)

theorem meets_append {next : State → Action → Option State} {condition : State → Action → Prop} {s t : State}
    {earlier later : List Action} (meets : Meets next condition s (earlier ++ later)) (ran : execute next s earlier = some t) :
    Meets next condition s earlier ∧ Meets next condition t later := by
  induction earlier generalizing s with
  | nil =>
      cases ran
      exact ⟨trivial,meets⟩
  | cons action rest ih =>
      obtain ⟨middle,taken,others⟩ := execute_cons.mp ran
      refine ⟨⟨meets.1,?_⟩,(ih (meets.2 middle taken) others).2⟩
      intro other same
      rw [taken] at same
      cases same
      exact (ih (meets.2 middle taken) others).1

-- A step that the run took, of a state that it had reached.
def Happened (next : State → Action → Option State) (s : State) (actions : List Action) (step : State → Action → Prop) : Prop :=
  ∃ earlier action later middle, actions = earlier ++ action :: later ∧ execute next s earlier = some middle ∧ step middle action

theorem Happened.later {next : State → Action → Option State} {step : State → Action → Prop} {s middle : State}
    {action : Action} {rest : List Action} (taken : next s action = some middle) (happened : Happened next middle rest step) :
    Happened next s (action :: rest) step := by
  obtain ⟨earlier,cause,later,reached,rfl,ran,step⟩ := happened
  exact ⟨action :: earlier,cause,later,reached,rfl,execute_cons.mpr ⟨middle,taken,ran⟩,step⟩

-- What holds at the end held at the start, or is the doing of a step between.
theorem execute_blames {next : State → Action → Option State} {Invariant Mark : State → Prop} {Cause : State → Action → Prop}
    (kept : ∀ s action t, Invariant s → next s action = some t → Invariant t)
    (blames : ∀ s action t, Invariant s → next s action = some t → Mark t → Mark s ∨ Cause s action) {s t : State}
    {actions : List Action} (start : Invariant s) (ran : execute next s actions = some t) (marked : Mark t) :
    Mark s ∨ Happened next s actions Cause := by
  induction actions generalizing s with
  | nil =>
      cases ran
      exact .inl marked
  | cons action rest ih =>
      obtain ⟨middle,taken,others⟩ := execute_cons.mp ran
      rcases ih (kept s action middle start taken) others with before | later
      · rcases blames s action middle start taken before with already | cause
        · exact .inl already
        · exact .inr ⟨[],action,rest,s,rfl,rfl,cause⟩
      · exact .inr (later.later taken)

-- A machine whose own actions lower a measure and that has one as long as it is not at
-- rest comes to rest, if only those are taken.
theorem execute_rests {next : State → Action → Option State} {Invariant Rest : State → Prop} {Own : Action → Prop}
    (measure : State → Nat) (kept : ∀ s action t, Invariant s → Own action → next s action = some t → Invariant t)
    (moves : ∀ s, Invariant s → ¬Rest s → ∃ action t, Own action ∧ next s action = some t ∧ measure t < measure s) {s : State}
    (start : Invariant s) : ∃ actions t, (∀ action ∈ actions, Own action) ∧ execute next s actions = some t ∧ Rest t := by
  induction bound : measure s using Nat.strongRecOn generalizing s with
  | ind size ih =>
    by_cases rests : Rest s
    · exact ⟨[],s,fun action there => absurd there List.not_mem_nil,rfl,rests⟩
    · obtain ⟨action,middle,own,taken,less⟩ := moves s start rests
      obtain ⟨actions,t,all,ran,rest⟩ := ih (measure middle) (bound ▸ less) (kept s action middle start own taken) rfl
      refine ⟨action :: actions,t,?_,execute_cons.mpr ⟨middle,taken,ran⟩,rest⟩
      intro one there
      rcases List.mem_cons.mp there with rfl | later
      · exact own
      · exact all one later

-- Actions that lower a measure are no more than it is.
theorem execute_spends {next : State → Action → Option State} {Invariant : State → Prop} {Own : Action → Prop}
    (measure : State → Nat) (kept : ∀ s action t, Invariant s → next s action = some t → Invariant t)
    (lowers : ∀ s action t, Invariant s → Own action → next s action = some t → measure t < measure s) {s t : State}
    {actions : List Action} (start : Invariant s) (own : ∀ action ∈ actions, Own action) (ran : execute next s actions = some t) :
    actions.length + measure t ≤ measure s := by
  induction actions generalizing s with
  | nil =>
      cases ran
      simp
  | cons action rest ih =>
      obtain ⟨middle,taken,after⟩ := execute_cons.mp ran
      have less := lowers s action middle start (own action List.mem_cons_self) taken
      have others := ih (kept s action middle start taken) (fun one there => own one (List.mem_cons_of_mem _ there)) after
      rw [List.length_cons]
      omega

end

-- A finer machine, seen as a coarser one: each of its steps is a step of the other, or
-- one it does not see.
section
variable {State Action Base Move : Type} {next : State → Action → Option State} {base : Base → Move → Option Base}

def Simulates (base : Base → Move → Option Base) (view : State → Base) (s t : State) : Option Move → Prop
  | none => view t = view s
  | some move => base (view s) move = some (view t)

def Asked (view : State → Base) (coarse : Action → Option Move) (asked : Base → Move → Prop) (s : State) (action : Action) :
    Prop := ∀ move, coarse action = some move → asked (view s) move

instance decidableAsked (view : State → Base) (coarse : Action → Option Move) (asked : Base → Move → Prop)
    [∀ s move, Decidable (asked s move)] (s : State) (action : Action) : Decidable (Asked view coarse asked s action) :=
  match named : coarse action with
  | none => isTrue (fun move same => by rw [named] at same; cases same)
  | some move => decidable_of_iff (asked (view s) move) ⟨
      fun holds other same => by rw [named] at same; cases same; exact holds,
      fun all => all move named⟩

-- What is asked of the finer run's actions, the coarser run meets.
theorem execute_simulated {view : State → Base} {coarse : Action → Option Move} {asked : Base → Move → Prop}
    {Invariant : State → Prop} (kept : ∀ s action t, Invariant s → next s action = some t → Invariant t)
    (simulated : ∀ s action t, Invariant s → next s action = some t → Simulates base view s t (coarse action))
    {s t : State} {actions : List Action} (start : Invariant s) (meets : Meets next (Asked view coarse asked) s actions)
    (ran : execute next s actions = some t) :
    execute base (view s) (actions.filterMap coarse) = some (view t) ∧
      Meets base asked (view s) (actions.filterMap coarse) := by
  induction actions generalizing s with
  | nil =>
      cases ran
      exact ⟨rfl,trivial⟩
  | cons action rest ih =>
      obtain ⟨middle,taken,others⟩ := execute_cons.mp ran
      obtain ⟨later,met⟩ := ih (kept s action middle start taken) (meets.2 middle taken) others
      have step := simulated s action middle start taken
      have here := meets.1
      unfold Asked at here
      rw [List.filterMap_cons]
      cases named : coarse action with
      | none =>
          rw [named] at step
          change view middle = view s at step
          rw [← step]
          exact ⟨later,met⟩
      | some move =>
          rw [named] at step
          change base (view s) move = some (view middle) at step
          refine ⟨execute_cons.mpr ⟨view middle,step,later⟩,here move named,?_⟩
          intro t stepped
          have same : view middle = t := Option.some.inj (step.symm.trans stepped)
          exact same ▸ met

end

-- A loop against what its items bring: kept by one item, kept by the loop.
section
variable {State Item Out : Type}

theorem foldl_traced {next : State → Item → State} (brings : Item → List Out) {Traced : List Out → State → Prop}
    (kept : ∀ outs s item, Traced outs s → Traced (outs ++ brings item) (next s item)) (items : List Item)
    {outs : List Out} {s : State} (start : Traced outs s) :
    Traced (outs ++ items.flatMap brings) (items.foldl next s) := by
  induction items generalizing outs s with
  | nil => simpa using start
  | cons item rest ih =>
      have later := ih (kept outs s item start)
      rw [List.append_assoc] at later
      exact later

end

-- A loop that may stop with an error.
section
variable {Error State Item : Type}

theorem bind_ok {Result : Type} {first : Except Error State} {rest : State → Except Error Result} {result : Result} :
    first >>= rest = .ok result ↔ ∃ state, first = .ok state ∧ rest state = .ok result := by
  cases first <;> simp [bind,Except.bind]

-- A check that passes lets the rest be what it was.
theorem unless_ok {Result : Type} {refused : Prop} [Decidable refused] {raises : Except Error PUnit}
    {rest : Except Error Result} {result : Result}
    (done : (if refused then raises >>= fun _ => rest else rest) = .ok result) : rest = .ok result := by
  split at done
  · obtain ⟨_,_,last⟩ := bind_ok.mp done
    exact last
  · exact done

-- A guard that raises: past it, it held.
theorem throw_ok {Result : Type} {refused : Prop} [Decidable refused] {error : Error} {rest : PUnit → Except Error Result}
    {result : Result} (done : (if refused then throw error >>= rest else rest ⟨⟩) = .ok result) :
    ¬refused ∧ rest ⟨⟩ = .ok result := by
  split at done
  · cases done
  · exact ⟨‹_›,done⟩

theorem foldlM_congr {one two : State → Item → Except Error State} {items : List Item}
    (same : ∀ state, ∀ item ∈ items, one state item = two state item) (state : State) :
    items.foldlM one state = items.foldlM two state := by
  induction items generalizing state with
  | nil => rfl
  | cons item rest ih =>
      rw [List.foldlM_cons,List.foldlM_cons,same state item List.mem_cons_self]
      congr 1
      funext next
      exact ih (fun state item there => same state item (List.mem_cons_of_mem _ there)) next

-- What is known of the items read, and kept by one more, is known at the end.
theorem foldlM_traced {next : State → Item → Except Error State} (Traced : List Item → State → Prop)
    (kept : ∀ before item s t, Traced before s → next s item = .ok t → Traced (before ++ [item]) t)
    {items : List Item} {s t : State} (start : Traced [] s) (ran : items.foldlM next s = .ok t) : Traced items t := by
  have all : ∀ (rest before : List Item) s, Traced before s → rest.foldlM next s = .ok t → Traced (before ++ rest) t := by
    intro rest
    induction rest with
    | nil =>
        intro before s traced ran
        cases ran
        rw [List.append_nil]
        exact traced
    | cons item rest ih =>
        intro before s traced ran
        rw [List.foldlM_cons] at ran
        obtain ⟨middle,first,others⟩ := bind_ok.mp ran
        have later := ih (before ++ [item]) middle (kept before item s middle traced first) others
        rw [List.append_assoc] at later
        exact later
  exact all items [] s start ran

-- A loop that stopped did so at one of its items, past which it read nothing.
theorem foldlM_stopped {next : State → Item → Except Error State} {items : List Item} {s : State} {error : Error}
    (stopped : items.foldlM next s = .error error) :
    ∃ before item after t, items = before ++ item :: after ∧ before.foldlM next s = .ok t ∧ next t item = .error error := by
  induction items generalizing s with
  | nil => cases stopped
  | cons item rest ih =>
      rw [List.foldlM_cons] at stopped
      cases taken : next s item with
      | error raised =>
          rw [taken] at stopped
          cases stopped
          exact ⟨[],item,rest,s,rfl,rfl,taken⟩
      | ok middle =>
          rw [taken] at stopped
          obtain ⟨before,last,after,t,rfl,ran,fails⟩ := ih stopped
          refine ⟨item :: before,last,after,t,rfl,?_,fails⟩
          rw [List.foldlM_cons,taken]
          exact ran

end
end Foundation
