import Modelship.Foundation.Runs

namespace Foundation

-- What happens to a key that is granted to one holder at a time, under some terms: the
-- holder keeps it or gives it back, or it is taken away and then cleaned up.
inductive Tenure (Key Term : Type) where
  | granted (key : Key) (term : Term)
  | kept (key : Key) (term : Term)
  | released (key : Key) (term : Term)
  | reaped (key : Key) (term : Term)
  | cleaned (key : Key) (term : Term)
  deriving DecidableEq

inductive Standing (Term : Type) where
  | free
  | held (term : Term)
  | cleaning (term : Term)

section
variable {Key Term : Type} [DecidableEq Key] [DecidableEq Term]

def Tenure.key : Tenure Key Term → Key
  | .granted key _ | .kept key _ | .released key _ | .reaped key _ | .cleaned key _ => key

-- One key's way through the events: each comes under the terms of the last grant, and no
-- grant before the key is free.
def follow (key : Key) (standing : Standing Term) (event : Tenure Key Term) : Option (Standing Term) :=
  if event.key ≠ key then some standing else
  match standing,event with
  | .free,.granted _ term => some (.held term)
  | .held term,.kept _ other => if other = term then some (.held term) else none
  | .held term,.released _ other => if other = term then some .free else none
  | .held term,.reaped _ other => if other = term then some (.cleaning term) else none
  | .cleaning term,.cleaned _ other => if other = term then some .free else none
  | _,_ => none

section
variable {key : Key} {term other : Term} {standing : Standing Term}

-- A key that is free again was given back, or taken away and cleaned up.
theorem cleaning_freed {events : List (Tenure Key Term)} (freed : execute (follow key) (.cleaning term) events = some .free) :
    .cleaned key term ∈ events := by
  induction events with
  | nil => cases freed
  | cons event rest ih =>
      obtain ⟨middle,first,others⟩ := execute_cons.mp freed
      unfold follow at first
      split at first
      · cases first
        exact List.mem_cons_of_mem _ (ih others)
      · rename_i here
        cases event with
        | granted | kept | released | reaped => cases first
        | cleaned name under =>
            simp only [Tenure.key,ne_eq,not_not] at here
            simp only at first
            split at first
            · rename_i same
              rw [here,same]
              exact List.mem_cons_self
            · cases first

theorem held_freed {events : List (Tenure Key Term)} (freed : execute (follow key) (.held term) events = some .free) :
    .released key term ∈ events ∨ .reaped key term ∈ events ∧ .cleaned key term ∈ events := by
  induction events with
  | nil => cases freed
  | cons event rest ih =>
      obtain ⟨middle,first,others⟩ := execute_cons.mp freed
      have later : execute (follow key) (.held term) rest = some .free →
          .released key term ∈ event :: rest ∨ .reaped key term ∈ event :: rest ∧ .cleaned key term ∈ event :: rest := by
        intro freed
        rcases ih freed with back | ⟨taken,clean⟩
        · exact .inl (List.mem_cons_of_mem _ back)
        · exact .inr ⟨List.mem_cons_of_mem _ taken,List.mem_cons_of_mem _ clean⟩
      unfold follow at first
      split at first
      · cases first
        exact later others
      · rename_i here
        cases event with
        | granted | cleaned => cases first
        | kept name under =>
            simp only at first
            split at first
            · cases first
              exact later others
            · cases first
        | released name under =>
            simp only [Tenure.key,ne_eq,not_not] at here
            simp only at first
            split at first
            · rename_i same
              rw [here,same]
              exact .inl List.mem_cons_self
            · cases first
        | reaped name under =>
            simp only [Tenure.key,ne_eq,not_not] at here
            simp only at first
            split at first
            · rename_i same
              cases first
              rw [here,same]
              exact .inr ⟨List.mem_cons_self,List.mem_cons_of_mem _ (cleaning_freed others)⟩
            · cases first

-- Who holds a key now has been granted it since, or held it before.
theorem held_granted {events : List (Tenure Key Term)} (ran : execute (follow key) standing events = some (.held term)) :
    .granted key term ∈ events ∨ standing = .held term := by
  induction events generalizing standing with
  | nil =>
      cases ran
      exact .inr rfl
  | cons event rest ih =>
      obtain ⟨middle,first,others⟩ := execute_cons.mp ran
      rcases ih others with later | rfl
      · exact .inl (List.mem_cons_of_mem _ later)
      · unfold follow at first
        split at first
        · cases first
          exact .inr rfl
        · rename_i here
          simp only [ne_eq,not_not] at here
          split at first
          · cases first
            left
            rw [← here]
            exact List.mem_cons_self
          · split at first
            · cases first
              exact .inr rfl
            · cases first
          · split at first <;> cases first
          · split at first <;> cases first
          · split at first <;> cases first
          · cases first

-- What stands at one event of a key's way.
theorem follow_split {events before after : List (Tenure Key Term)} {event : Tenure Key Term} {last : Standing Term}
    (ran : execute (follow key) .free events = some last) (split : events = before ++ event :: after) :
    ∃ one two, execute (follow key) .free before = some one ∧ follow key one event = some two ∧
      execute (follow key) two after = some last := by
  rw [split] at ran
  obtain ⟨one,first,others⟩ := execute_append.mp ran
  obtain ⟨two,second,third⟩ := execute_cons.mp others
  exact ⟨one,two,first,second,third⟩

theorem granted_held {one two : Standing Term} (followed : follow key one (.granted key term) = some two) :
    one = .free ∧ two = .held term := by
  unfold follow at followed
  rw [if_neg (by simp [Tenure.key])] at followed
  cases one with
  | free =>
      cases followed
      exact ⟨rfl,rfl⟩
  | held | cleaning => cases followed

theorem reaped_cleaning {one two : Standing Term} (followed : follow key one (.reaped key term) = some two) :
    two = .cleaning term := by
  unfold follow at followed
  rw [if_neg (by simp [Tenure.key])] at followed
  cases one with
  | free | cleaning => cases followed
  | held under =>
      simp only at followed
      split at followed
      · rename_i same
        cases followed
        rw [same]
      · cases followed

-- Between two grants of a key the first is given back, or taken away and cleaned up.
theorem grants_apart {events before between after : List (Tenure Key Term)} {last : Standing Term}
    (ran : execute (follow key) .free events = some last)
    (split : events = before ++ .granted key term :: between ++ .granted key other :: after) :
    .released key term ∈ between ∨ .reaped key term ∈ between ∧ .cleaned key term ∈ between := by
  rw [List.append_assoc,List.cons_append] at split
  obtain ⟨_,two,_,granted,rest⟩ := follow_split ran split
  obtain ⟨_,rfl⟩ := granted_held granted
  obtain ⟨later,middle,others⟩ := execute_append.mp rest
  obtain ⟨_,again,_⟩ := execute_cons.mp others
  obtain ⟨rfl,_⟩ := granted_held again
  exact held_freed middle

end
end
end Foundation
