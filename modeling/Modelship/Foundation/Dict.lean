import Mathlib.Data.List.Forall2
import Mathlib.Data.List.Nodup

namespace Foundation

-- A list checked item by item, all of it or none.
theorem mapM_paired {One Two : Type} {check : One → Option Two} {ones : List One} {twos : List Two}
    (done : ones.mapM check = some twos) : List.Forall₂ (fun one two => check one = some two) ones twos := by
  induction ones generalizing twos with
  | nil =>
      cases done
      exact .nil
  | cons one rest ih =>
      rw [List.mapM_cons] at done
      obtain ⟨two,checked,others⟩ := Option.bind_eq_some_iff.mp done
      obtain ⟨later,all,same⟩ := Option.bind_eq_some_iff.mp others
      cases same
      exact .cons checked (ih all)

theorem mapM_total {One Two : Type} {check : One → Option Two} {ones : List One}
    (checked : ∀ one ∈ ones, ∃ two, check one = some two) : ∃ twos, ones.mapM check = some twos := by
  induction ones with
  | nil => exact ⟨[],rfl⟩
  | cons one rest ih =>
      obtain ⟨two,first⟩ := checked one List.mem_cons_self
      obtain ⟨twos,others⟩ := ih fun later member => checked later (List.mem_cons_of_mem _ member)
      exact ⟨two :: twos,by simp [List.mapM_cons,first,others]⟩

-- What a stricter reader takes, a laxer one reads the same.
theorem mapM_laxer {One Two : Type} {strict lax : One → Option Two} {ones : List One} {twos : List Two}
    (laxer : ∀ one two, strict one = some two → lax one = some two) (read : ones.mapM strict = some twos) :
    ones.mapM lax = some twos := by
  induction ones generalizing twos with
  | nil => exact read
  | cons one rest ih =>
      rw [List.mapM_cons] at read ⊢
      obtain ⟨two,first,others⟩ := Option.bind_eq_some_iff.mp read
      obtain ⟨later,all,same⟩ := Option.bind_eq_some_iff.mp others
      rw [laxer one two first,Option.bind_eq_bind,Option.bind_some,ih all]
      exact same

theorem paired_right {One Two : Type} {R : One → Two → Prop} {ones : List One} {twos : List Two}
    (paired : List.Forall₂ R ones twos) {two : Two} (member : two ∈ twos) : ∃ one ∈ ones, R one two := by
  induction paired with
  | nil => cases member
  | cons first others ih =>
      rcases List.mem_cons.mp member with rfl | later
      · exact ⟨_,List.mem_cons_self,first⟩
      · obtain ⟨one,there,related⟩ := ih later
        exact ⟨one,List.mem_cons_of_mem _ there,related⟩

theorem paired_left {One Two : Type} {R : One → Two → Prop} {ones : List One} {twos : List Two}
    (paired : List.Forall₂ R ones twos) {one : One} (member : one ∈ ones) : ∃ two ∈ twos, R one two := by
  induction paired with
  | nil => cases member
  | cons first others ih =>
      rcases List.mem_cons.mp member with rfl | later
      · exact ⟨_,List.mem_cons_self,first⟩
      · obtain ⟨two,there,related⟩ := ih later
        exact ⟨two,List.mem_cons_of_mem _ there,related⟩

theorem paired_mono {One Two : Type} {R S : One → Two → Prop} {ones : List One} {twos : List Two}
    (paired : List.Forall₂ R ones twos) (weaker : ∀ one ∈ ones, ∀ two, R one two → S one two) : List.Forall₂ S ones twos := by
  induction paired with
  | nil => exact .nil
  | cons first others ih =>
      refine .cons (weaker _ List.mem_cons_self _ first) (ih ?_)
      intro one member
      exact weaker one (List.mem_cons_of_mem _ member)

-- Entries under distinct keys: without one key, they are one fewer.
theorem keyed_perm {Key Value : Type} [DecidableEq Key] {entries : List (Key × Value)} (distinct : (entries.map Prod.fst).Nodup)
    {entry : Key × Value} (present : entry ∈ entries) : entries.Perm (entry :: entries.filter (·.1 ≠ entry.1)) := by
  induction entries with
  | nil => cases present
  | cons head rest ih =>
      obtain ⟨fresh,others⟩ := List.nodup_cons.mp distinct
      rcases List.mem_cons.mp present with rfl | later
      · have kept : rest.filter (·.1 ≠ entry.1) = rest := by
          rw [List.filter_eq_self]
          intro other member
          have apart : other.1 ≠ entry.1 := fun equal => fresh (List.mem_map.mpr ⟨other,member,equal⟩)
          simpa using apart
        rw [List.filter_cons_of_neg (by simp),kept]
      · have apart : head.1 ≠ entry.1 := by
          intro equal
          exact fresh (equal ▸ List.mem_map.mpr ⟨_,later,rfl⟩)
        rw [List.filter_cons_of_pos (by simpa using apart)]
        exact ((ih others later).cons head).trans (List.Perm.swap ..)

-- A dictionary in insertion order: overwriting a key keeps its place, a new key
-- goes last. The keys are distinct by construction.
structure Dict (Key Value : Type) where
  entries : List (Key × Value)
  distinct : (entries.map Prod.fst).Nodup

namespace Dict
open scoped List
section
variable {Key Value : Type} [DecidableEq Key]

def put (key : Key) (value : Value) : List (Key × Value) → List (Key × Value)
  | [] => [(key,value)]
  | (other,old) :: rest =>
    if other = key then (other,value) :: rest else (other,old) :: put key value rest

theorem mem_put_keys {key other : Key} {value : Value} {entries : List (Key × Value)}
    (found : other ∈ (put key value entries).map Prod.fst) :
    other = key ∨ other ∈ entries.map Prod.fst := by
  induction entries with
  | nil => exact .inl (by simpa [put] using found)
  | cons head rest ih =>
      unfold put at found
      split at found
      · exact .inr found
      · rcases List.mem_cons.mp found with here | there
        · exact .inr (by rw [here]; exact List.mem_cons_self)
        · exact (ih there).imp id (List.mem_cons_of_mem _)

theorem put_distinct (key : Key) (value : Value) {entries : List (Key × Value)}
    (distinct : (entries.map Prod.fst).Nodup) : ((put key value entries).map Prod.fst).Nodup := by
  induction entries with
  | nil => simp [put]
  | cons head rest ih =>
      obtain ⟨fresh,others⟩ := List.nodup_cons.mp distinct
      unfold put
      split
      · exact List.nodup_cons.mpr ⟨fresh,others⟩
      · rename_i apart
        refine List.nodup_cons.mpr ⟨?_,ih others⟩
        intro found
        exact (mem_put_keys found).elim apart fresh

theorem put_absent {key : Key} (value : Value) {entries : List (Key × Value)}
    (absent : key ∉ entries.map Prod.fst) : put key value entries = entries ++ [(key,value)] := by
  induction entries with
  | nil => rfl
  | cons head rest ih =>
      have apart : head.1 ≠ key := by
        rintro rfl
        exact absent List.mem_cons_self
      simp only [put,if_neg apart,List.cons_append]
      rw [ih (fun present => absent (List.mem_cons_of_mem _ present))]

-- Overwriting a value does not change what its old one shares with the new.
theorem put_map {Shared : Type} (share : Key × Value → Shared) {key : Key} {value old : Value}
    {entries : List (Key × Value)} (distinct : (entries.map Prod.fst).Nodup) (present : (key,old) ∈ entries)
    (same : share (key,value) = share (key,old)) : (put key value entries).map share = entries.map share := by
  induction entries with
  | nil => cases present
  | cons head rest ih =>
      obtain ⟨fresh,others⟩ := List.nodup_cons.mp distinct
      rcases List.mem_cons.mp present with rfl | later
      · simp [put,same]
      · have apart : head.1 ≠ key := by
          intro equal
          exact fresh (equal ▸ List.mem_map.mpr ⟨_,later,rfl⟩)
        simp only [put,if_neg apart,List.map_cons]
        rw [ih others later]

theorem mem_put {key other : Key} {value found : Value} {entries : List (Key × Value)}
    (present : (other,found) ∈ put key value entries) :
    other = key ∧ found = value ∨ (other,found) ∈ entries := by
  induction entries with
  | nil => exact .inl (by simpa [put] using present)
  | cons head rest ih =>
      unfold put at present
      split at present
      · rename_i here
        rcases List.mem_cons.mp present with equal | later
        · cases equal
          exact .inl ⟨here,rfl⟩
        · exact .inr (List.mem_cons_of_mem _ later)
      · rcases List.mem_cons.mp present with equal | later
        · exact .inr (equal ▸ List.mem_cons_self)
        · exact (ih later).imp id (List.mem_cons_of_mem _)

-- A dictionary of lists, flattened: what one value gains or loses, the whole does.
theorem put_gather {Item : Type} (lost gained : List Item) {key : Key} {old new : List Item}
    {entries : List (Key × List Item)} (distinct : (entries.map Prod.fst).Nodup) (present : (key,old) ∈ entries) (change : (lost ++ new).Perm (gained ++ old)) :
    (lost ++ (put key new entries).flatMap Prod.snd).Perm (gained ++ entries.flatMap Prod.snd) := by
  induction entries with
  | nil => cases present
  | cons head rest ih =>
      obtain ⟨fresh,others⟩ := List.nodup_cons.mp distinct
      rcases List.mem_cons.mp present with rfl | later
      · simp only [put,if_true,List.flatMap_cons,← List.append_assoc]
        exact change.append_right _
      · have apart : head.1 ≠ key := by
          intro equal
          exact fresh (equal ▸ List.mem_map.mpr ⟨_,later,rfl⟩)
        simp only [put,if_neg apart,List.flatMap_cons]
        calc
          _ ~ head.2 ++ (lost ++ (put key new rest).flatMap Prod.snd) := List.perm_append_comm_assoc _ _ _
          _ ~ head.2 ++ (gained ++ rest.flatMap Prod.snd) := (ih others later).append_left _
          _ ~ _ := List.perm_append_comm_assoc _ _ _

theorem erase_gather {Item : Type} {key : Key} {old : List Item} {entries : List (Key × List Item)}
    (distinct : (entries.map Prod.fst).Nodup) (present : (key,old) ∈ entries) :
    (old ++ (entries.filter (·.1 ≠ key)).flatMap Prod.snd).Perm (entries.flatMap Prod.snd) := by
  induction entries with
  | nil => cases present
  | cons head rest ih =>
      obtain ⟨fresh,others⟩ := List.nodup_cons.mp distinct
      rcases List.mem_cons.mp present with rfl | later
      · have kept : rest.filter (·.1 ≠ key) = rest := by
          rw [List.filter_eq_self]
          intro entry member
          have apart : entry.1 ≠ key := fun equal => fresh (List.mem_map.mpr ⟨entry,member,equal⟩)
          simpa using apart
        rw [List.filter_cons_of_neg (by simp),kept,List.flatMap_cons]
      · have apart : head.1 ≠ key := by
          intro equal
          exact fresh (equal ▸ List.mem_map.mpr ⟨_,later,rfl⟩)
        rw [List.filter_cons_of_pos (by simpa using apart),List.flatMap_cons,List.flatMap_cons]
        exact (List.perm_append_comm_assoc _ _ _).trans ((ih others later).append_left _)

def empty : Dict Key Value := ⟨[],List.nodup_nil⟩

def get? (dict : Dict Key Value) (key : Key) : Option Value :=
  (dict.entries.find? (·.1 = key)).map (·.2)

def set (dict : Dict Key Value) (key : Key) (value : Value) : Dict Key Value :=
  ⟨put key value dict.entries,put_distinct key value dict.distinct⟩

def select (dict : Dict Key Value) (keep : Key × Value → Bool) : Dict Key Value :=
  ⟨dict.entries.filter keep,(List.filter_sublist.map Prod.fst).nodup dict.distinct⟩

def mapValues {Other : Type} (f : Value → Other) (dict : Dict Key Value) : Dict Key Other :=
  ⟨dict.entries.map fun entry => (entry.1,f entry.2),by simpa [List.map_map,Function.comp_def] using dict.distinct⟩

def erase (dict : Dict Key Value) (key : Key) : Dict Key Value := dict.select (·.1 ≠ key)

theorem get_mapValues {Other : Type} (f : Value → Other) (dict : Dict Key Value) (key : Key) :
    (dict.mapValues f).get? key = (dict.get? key).map f := by
  simp only [get?,mapValues,List.find?_map,Option.map_map]
  rfl

theorem get_isSome {dict : Dict Key Value} {key : Key} : (dict.get? key).isSome ↔ key ∈ dict.entries.map Prod.fst := by
  simp [get?,List.find?_isSome,List.mem_map]

@[simp] theorem get_empty (key : Key) : (empty : Dict Key Value).get? key = none := rfl

theorem get_put (key other : Key) (value : Value) (entries : List (Key × Value)) :
    ((put key value entries).find? (·.1 = other)).map (·.2) =
      if key = other then some value else (entries.find? (·.1 = other)).map (·.2) := by
  induction entries with
  | nil => by_cases same : key = other <;> simp [put,same]
  | cons head rest ih =>
      obtain ⟨here,old⟩ := head
      by_cases hit : here = key
      · subst here
        by_cases same : key = other <;> simp [put,same]
      · by_cases there : here = other
        · have apart : key ≠ other := fun equal => hit (there.trans equal.symm)
          simp [put,there,apart]
          simp [← there,hit]
        · simp [put,hit,there,ih]

@[simp] theorem get_set (dict : Dict Key Value) (key other : Key) (value : Value) :
    (dict.set key value).get? other = if key = other then some value else dict.get? other :=
  get_put key other value dict.entries

theorem get_set_self (dict : Dict Key Value) (key : Key) (value : Value) : (dict.set key value).get? key = some value := by
  rw [get_set,if_pos rfl]

theorem get_some_mem {dict : Dict Key Value} {key : Key} {value : Value}
    (found : dict.get? key = some value) : (key,value) ∈ dict.entries := by
  unfold get? at found
  obtain ⟨entry,hit,rfl⟩ := Option.map_eq_some_iff.mp found
  have same : entry.1 = key := by simpa using List.find?_some hit
  rw [← same]
  exact List.mem_of_find?_eq_some hit

theorem mem_get_some {dict : Dict Key Value} {key : Key} {value : Value}
    (present : (key,value) ∈ dict.entries) : dict.get? key = some value := by
  obtain ⟨entries,distinct⟩ := dict
  unfold get?
  induction entries with
  | nil => cases present
  | cons head rest ih =>
      obtain ⟨fresh,others⟩ := List.nodup_cons.mp distinct
      rcases List.mem_cons.mp present with rfl | later
      · simp
      · have apart : head.1 ≠ key := by
          intro same
          exact fresh (same ▸ List.mem_map.mpr ⟨_,later,rfl⟩)
        simpa [apart] using ih others later

theorem get_select {dict : Dict Key Value} {keep : Key × Value → Bool} {key : Key} :
    (dict.select keep).get? key = (dict.get? key).filter (fun value => keep (key,value)) := by
  cases found : dict.get? key with
  | none =>
      cases kept : (dict.select keep).get? key with
      | none => rfl
      | some value =>
          have present := (List.mem_filter.mp (get_some_mem kept)).1
          rw [mem_get_some present] at found
          cases found
  | some value =>
      have present := get_some_mem found
      by_cases wanted : keep (key,value) = true
      · rw [Option.filter_some,if_pos wanted]
        exact mem_get_some (List.mem_filter.mpr ⟨present,wanted⟩)
      · rw [Option.filter_some,if_neg wanted]
        cases kept : (dict.select keep).get? key with
        | none => rfl
        | some other =>
            have still := List.mem_filter.mp (get_some_mem kept)
            have same := mem_get_some still.1
            rw [found] at same
            cases same
            exact absurd still.2 wanted

@[simp] theorem get_erase (dict : Dict Key Value) (key other : Key) :
    (dict.erase key).get? other = if key = other then none else dict.get? other := by
  unfold erase
  rw [get_select]
  by_cases same : key = other
  · cases dict.get? other <;> simp [same,Option.filter]
  · have apart : other ≠ key := fun equal => same equal.symm
    cases dict.get? other <;> simp [same,apart,Option.filter]

-- A table built from a list: what it holds comes from an item of that key, and an item
-- whose key is its own is held.
section
variable {Item : Type} (key : Item → Key) (value : Item → Value)

def fill (items : List Item) (table : Dict Key Value) : Dict Key Value :=
  items.foldl (fun table item => table.set (key item) (value item)) table

theorem fill_other {items : List Item} {table : Dict Key Value} {other : Key} (missed : other ∉ items.map key) :
    (fill key value items table).get? other = table.get? other := by
  induction items generalizing table with
  | nil => rfl
  | cons item rest ih =>
      rw [List.map_cons,List.mem_cons,not_or] at missed
      refine (ih missed.2).trans ?_
      rw [get_set,if_neg (Ne.symm missed.1)]

theorem fill_member {items : List Item} {table : Dict Key Value} (apart : (items.map key).Nodup) {item : Item}
    (member : item ∈ items) : (fill key value items table).get? (key item) = some (value item) := by
  induction items generalizing table with
  | nil => cases member
  | cons first rest ih =>
      obtain ⟨fresh,others⟩ := List.nodup_cons.mp apart
      rcases List.mem_cons.mp member with rfl | later
      · refine (fill_other key value fresh).trans ?_
        rw [get_set,if_pos rfl]
      · exact ih others later

-- The last item of a key is the one it is filled with.
theorem fill_last {items : List Item} {table : Dict Key Value} (other : Key) : (fill key value items table).get? other =
    ((items.filter fun item => key item = other).getLast?.map value).or (table.get? other) := by
  induction items generalizing table with
  | nil => rfl
  | cons item rest ih =>
      refine ih.trans ?_
      rw [get_set,List.filter_cons]
      by_cases same : key item = other
      · rw [if_pos same,if_pos (decide_eq_true same),List.getLast?_cons]
        cases (rest.filter fun item => key item = other).getLast? with
        | none => rfl
        | some last => rfl
      · rw [if_neg same,if_neg (by simpa using same)]

theorem fill_from {items : List Item} {table : Dict Key Value} {other : Key} {found : Value}
    (held : (fill key value items table).get? other = some found) :
    table.get? other = some found ∨ ∃ item ∈ items, key item = other ∧ value item = found := by
  induction items generalizing table with
  | nil => exact .inl held
  | cons item rest ih =>
      rcases ih held with before | ⟨later,member,same⟩
      · rw [get_set] at before
        split at before
        · cases before
          exact .inr ⟨item,List.mem_cons_self,‹_›,rfl⟩
        · exact .inl before
      · exact .inr ⟨later,List.mem_cons_of_mem _ member,same⟩

end

theorem get_perm {one two : Dict Key Value} (perm : one.entries.Perm two.entries) (key : Key) :
    one.get? key = two.get? key := by
  cases found : two.get? key with
  | some value => exact mem_get_some (perm.mem_iff.mpr (get_some_mem found))
  | none =>
      cases held : one.get? key with
      | none => rfl
      | some value =>
          rw [mem_get_some (perm.mem_iff.mp (get_some_mem held))] at found
          cases found

end
end Dict
end Foundation
