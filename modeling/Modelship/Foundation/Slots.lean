import Mathlib.Data.List.Nodup
import Mathlib.Data.List.Perm.Subperm

namespace Foundation

-- Slots that are filled by index; a slot keeps what was put into it last.
section
variable {Item : Type}

def fill (slots : List (Option Item)) (entries : List (Nat × Item)) : List (Option Item) :=
  entries.foldl (fun slots entry => slots.set entry.1 (some entry.2)) slots

@[simp] theorem fill_nil (slots : List (Option Item)) : fill slots [] = slots := rfl

theorem fill_append (slots : List (Option Item)) (earlier later : List (Nat × Item)) :
    fill slots (earlier ++ later) = fill (fill slots earlier) later :=
  List.foldl_append

@[simp] theorem fill_length (slots : List (Option Item)) (entries : List (Nat × Item)) :
    (fill slots entries).length = slots.length := by
  induction entries generalizing slots with
  | nil => rfl
  | cons entry rest ih => exact (ih _).trans List.length_set

theorem fill_miss {slots : List (Option Item)} {entries : List (Nat × Item)} {index : Nat}
    (missed : index ∉ entries.map Prod.fst) : (fill slots entries)[index]? = slots[index]? := by
  induction entries generalizing slots with
  | nil => rfl
  | cons entry rest ih =>
      rw [List.map_cons,List.mem_cons,not_or] at missed
      apply (ih missed.2).trans
      exact List.getElem?_set_ne (fun equal => missed.1 equal.symm)

-- What a slot holds was put into it, or was there before.
theorem fill_some {slots : List (Option Item)} {entries : List (Nat × Item)} {index : Nat} {item : Item}
    (found : (fill slots entries)[index]? = some (some item)) :
    (index,item) ∈ entries ∨ slots[index]? = some (some item) := by
  induction entries generalizing slots with
  | nil => exact .inr found
  | cons entry rest ih =>
      rcases ih found with later | here
      · exact .inl (List.mem_cons_of_mem _ later)
      · by_cases same : entry.1 = index
        · subst same
          rw [List.getElem?_set_self'] at here
          left
          cases held : slots[entry.1]? with
          | none => simp [held] at here
          | some old =>
              simp only [held,Function.const,Option.map_eq_map,Option.map_some,Option.some.injEq] at here
              rw [← here]
              exact List.mem_cons_self
        · rw [List.getElem?_set_ne same] at here
          exact .inr here

-- Where no index comes twice, each slot holds what was put into it.
theorem fill_hit {slots : List (Option Item)} {entries : List (Nat × Item)} {index : Nat} {item : Item}
    (distinct : (entries.map Prod.fst).Nodup) (present : (index,item) ∈ entries) (inside : index < slots.length) :
    (fill slots entries)[index]? = some (some item) := by
  induction entries generalizing slots with
  | nil => cases present
  | cons entry rest ih =>
      obtain ⟨fresh,others⟩ := List.nodup_cons.mp distinct
      rcases List.mem_cons.mp present with rfl | later
      · apply (fill_miss fresh).trans
        simp [inside]
      · apply ih others later
        rw [List.length_set]
        exact inside

-- Slots added behind those there are, each filled once.
theorem fill_fresh {slots : List (Option Item)} {entries : List (Nat × Item)} {count : Nat}
    (once : (entries.map Prod.fst).Perm (List.range' slots.length count)) (index : Nat) (item : Item) :
    (fill (slots ++ List.replicate count none) entries)[index]? = some (some item) ↔
      slots[index]? = some (some item) ∨ (index,item) ∈ entries := by
  have within : ∀ {other : Nat}, other ∈ entries.map Prod.fst ↔ slots.length ≤ other ∧ other < slots.length + count := by
    intro other
    rw [once.mem_iff,List.mem_range'_1]
  constructor
  · intro found
    rcases fill_some found with put | before
    · exact .inr put
    · rcases Nat.lt_or_ge index slots.length with old | new
      · rw [List.getElem?_append_left old] at before
        exact .inl before
      · rw [List.getElem?_append_right new,List.getElem?_replicate] at before
        split at before <;> cases before
  · rintro (before | put)
    · have old : index < slots.length := (List.getElem?_eq_some_iff.mp before).1
      rw [fill_miss (fun hit => by have bounds := within.mp hit; omega),List.getElem?_append_left old]
      exact before
    · have bounds := within.mp (List.mem_map.mpr ⟨_,put,rfl⟩)
      apply fill_hit (once.nodup_iff.mpr List.nodup_range') put
      rw [List.length_append,List.length_replicate]
      exact bounds.2

-- Then no slot stays empty.
theorem fill_full {slots : List (Option Item)} {entries : List (Nat × Item)} {count : Nat}
    (once : (entries.map Prod.fst).Perm (List.range' slots.length count)) (full : none ∉ slots) :
    none ∉ fill (slots ++ List.replicate count none) entries := by
  intro hole
  obtain ⟨index,inside,empty⟩ := List.mem_iff_getElem.mp hole
  have found := List.getElem?_eq_getElem inside
  rw [empty] at found
  rw [fill_length,List.length_append,List.length_replicate] at inside
  rcases Nat.lt_or_ge index slots.length with old | new
  · have missed : index ∉ entries.map Prod.fst := by
      rw [once.mem_iff,List.mem_range'_1]
      omega
    rw [fill_miss missed,List.getElem?_append_left old] at found
    exact full (List.mem_of_getElem? found)
  · have hit : index ∈ entries.map Prod.fst := by
      rw [once.mem_iff,List.mem_range'_1]
      exact ⟨new,inside⟩
    obtain ⟨⟨_,item⟩,put,rfl⟩ := List.mem_map.mp hit
    rw [(fill_fresh once _ item).mpr (.inr put)] at found
    cases found

-- As many entries as there are new slots leave none empty only where each has its own.
theorem fill_once {slots : List (Option Item)} {entries : List (Nat × Item)} {count : Nat}
    (length : entries.length = count) (full : none ∉ fill (slots ++ List.replicate count none) entries) :
    (entries.map Prod.fst).Perm (List.range' slots.length count) := by
  have hit : ∀ index ∈ List.range' slots.length count, index ∈ entries.map Prod.fst := by
    intro index inside
    rw [List.mem_range'_1] at inside
    by_contra missed
    apply full
    have empty : (fill (slots ++ List.replicate count none) entries)[index]? = some none := by
      rw [fill_miss missed,List.getElem?_append_right inside.1,List.getElem?_replicate]
      rw [if_pos (by omega)]
    exact List.mem_of_getElem? empty
  have distinct : (List.range' slots.length count).Nodup := List.nodup_range'
  have subperm := distinct.subperm hit
  apply (subperm.perm_of_length_le _).symm
  exact Nat.le_of_eq (by rw [List.length_map,List.length_range',length])

end

-- Entries that were given the indices 0, 1, ... in one order and are listed in another.
-- Of those that `keep` names, some part goes by its position, some by its index.
section
variable {Item : Type} (keep : Item → Bool) (entries : List (Nat × Item)) (base : Nat)

def byPosition : List (Nat × Item) :=
  (entries.zipIdx.filter fun entry => keep entry.1.2).map fun entry => (entry.2 + base,entry.1.2)

def byIndex : List (Nat × Item) :=
  (entries.filter fun entry => keep entry.2).map fun entry => (entry.1 + base,entry.2)

-- Each kept entry stands where its index says.
def InPlace : Prop := ∀ entry ∈ entries.zipIdx, keep entry.1.2 = true → entry.1.1 = entry.2

-- No kept entry stands where the index of another says.
def Unclaimed : Prop := ∀ entry ∈ entries.zipIdx, keep entry.1.2 = true →
  ∀ other ∈ entries, keep other.2 = false → other.1 ≠ entry.2

instance : Decidable (InPlace keep entries) := by unfold InPlace; infer_instance
instance : Decidable (Unclaimed keep entries) := by unfold Unclaimed; infer_instance

variable {keep} {entries}

theorem inPlace_unclaimed (distinct : (entries.map Prod.fst).Nodup) (place : InPlace keep entries) :
    Unclaimed keep entries := by
  intro entry present kept other there dropped same
  have first : entry.1 ∈ entries := List.fst_mem_of_mem_zipIdx present
  have equal := List.inj_on_of_nodup_map distinct there first (same.trans (place entry present kept).symm)
  rw [equal,kept] at dropped
  cases dropped

theorem inPlace_byIndex (place : InPlace keep entries) : byPosition keep entries base = byIndex keep entries base := by
  have shifted : (entries.zipIdx.filter fun entry => keep entry.1.2).map (fun entry => (entry.2 + base,entry.1.2)) =
      (entries.zipIdx.filter fun entry => keep entry.1.2).map fun entry => (entry.1.1 + base,entry.1.2) := by
    apply List.map_congr_left
    intro entry present
    rw [List.mem_filter] at present
    rw [place entry present.1 present.2]
  have unzipped : entries.filter (fun entry => keep entry.2) =
      (entries.zipIdx.filter fun entry => keep entry.1.2).map Prod.fst := by
    conv_lhs => rw [← List.zipIdx_map_fst 0 entries]
    rw [List.filter_map]
    rfl
  unfold byPosition byIndex
  rw [shifted,unzipped,List.map_map]
  rfl

theorem byPosition_bounds {index : Nat} (present : index ∈ (byPosition keep entries base).map Prod.fst) :
    base ≤ index ∧ index < base + entries.length := by
  unfold byPosition at present
  rw [List.map_map] at present
  obtain ⟨entry,there,rfl⟩ := List.mem_map.mp present
  have bounds := List.snd_lt_of_mem_zipIdx (List.mem_filter.mp there).1
  simp only [Function.comp_apply]
  omega

theorem byIndex_bounds (taken : (entries.map Prod.fst).Perm (List.range entries.length)) {index : Nat}
    (present : index ∈ (byIndex keep entries base).map Prod.fst) : base ≤ index ∧ index < base + entries.length := by
  unfold byIndex at present
  rw [List.map_map] at present
  obtain ⟨entry,there,rfl⟩ := List.mem_map.mp present
  have bounds := List.mem_range.mp (taken.mem_iff.mp (List.mem_map.mpr ⟨entry,(List.mem_filter.mp there).1,rfl⟩))
  simp only [Function.comp_apply]
  omega

theorem split_length : (byPosition keep entries base).length + (byIndex (fun item => !keep item) entries base).length =
    entries.length := by
  have kept : (entries.zipIdx.filter fun entry => keep entry.1.2).length = (entries.filter fun entry => keep entry.2).length := by
    conv_rhs => rw [← List.zipIdx_map_fst 0 entries]
    rw [List.filter_map,List.length_map]
    rfl
  unfold byPosition byIndex
  rw [List.length_map,List.length_map,kept]
  exact (List.length_eq_length_filter_add _).symm

-- Where no place is claimed twice, the two parts take every place once.
theorem unclaimed_once (taken : (entries.map Prod.fst).Perm (List.range entries.length))
    (unclaimed : Unclaimed keep entries) :
    ((byPosition keep entries base).map Prod.fst ++ (byIndex (fun item => !keep item) entries base).map Prod.fst).Perm
      (List.range' base entries.length) := by
  have positions : ((byPosition keep entries base).map Prod.fst).Nodup := by
    unfold byPosition
    rw [List.map_map]
    have all : (entries.zipIdx.map fun entry => entry.2 + base).Nodup := by
      have positions : (entries.zipIdx.map Prod.snd).Nodup := by
        rw [List.zipIdx_map_snd]
        exact List.nodup_range'
      have shifted := positions.map (fun _ _ same => Nat.add_right_cancel same : Function.Injective (· + base))
      rw [List.map_map] at shifted
      exact shifted
    exact (List.filter_sublist.map _).nodup all
  have indices : ((byIndex (fun item => !keep item) entries base).map Prod.fst).Nodup := by
    unfold byIndex
    rw [List.map_map]
    have all : (entries.map fun entry => entry.1 + base).Nodup := by
      have shifted := (taken.nodup_iff.mpr List.nodup_range).map
        (fun _ _ same => Nat.add_right_cancel same : Function.Injective (· + base))
      rw [List.map_map] at shifted
      exact shifted
    exact (List.filter_sublist.map _).nodup all
  have together : ((byPosition keep entries base).map Prod.fst ++
      (byIndex (fun item => !keep item) entries base).map Prod.fst).Nodup := by
    apply List.nodup_append.mpr
    refine ⟨positions,indices,?_⟩
    intro one first two second same
    subst same
    unfold byPosition at first
    unfold byIndex at second
    rw [List.map_map] at first second
    obtain ⟨entry,here,equal⟩ := List.mem_map.mp first
    obtain ⟨other,there,equal_⟩ := List.mem_map.mp second
    rw [List.mem_filter] at here there
    apply unclaimed entry here.1 here.2 other there.1 (by simpa using there.2)
    simp only [Function.comp_apply] at equal equal_
    omega
  have inside : ∀ index ∈ (byPosition keep entries base).map Prod.fst ++
      (byIndex (fun item => !keep item) entries base).map Prod.fst, index ∈ List.range' base entries.length := by
    intro index present
    rw [List.mem_range'_1]
    rcases List.mem_append.mp present with first | second
    · exact byPosition_bounds base first
    · exact byIndex_bounds base taken second
  have subperm := together.subperm inside
  apply subperm.perm_of_length_le
  exact Nat.le_of_eq (by rw [List.length_range',List.length_append,List.length_map,List.length_map,split_length])

end
end Foundation
