import Mathlib.Data.List.Sort

namespace Foundation
section
variable {Entry Score : Type} [LinearOrder Score] (score : Entry → Score)

-- Entries by their score, the highest first; equal scores keep their order.
def ranked (entries : List Entry) : List Entry := entries.insertionSort fun one two => score two ≤ score one

theorem ranked_perm (entries : List Entry) : (ranked score entries).Perm entries := List.perm_insertionSort _ entries

theorem mem_ranked {entries : List Entry} {entry : Entry} : entry ∈ ranked score entries ↔ entry ∈ entries :=
  (ranked_perm score entries).mem_iff

theorem ranked_ordered (entries : List Entry) :
    (ranked score entries).Pairwise fun one two => score two ≤ score one := by
  have total : Std.Total fun one two => score two ≤ score one := ⟨fun one two => le_total (score two) (score one)⟩
  have transitive : IsTrans Entry fun one two => score two ≤ score one :=
    ⟨fun _ _ _ first second => le_trans second first⟩
  exact List.pairwise_insertionSort _ entries

variable {score}

-- Where no two scores are equal, there is one ranking.
theorem ranked_strictly {entries : List Entry} (distinct : (entries.map score).Nodup) :
    (ranked score entries).Pairwise fun one two => score two < score one := by
  have apart : (ranked score entries).Pairwise fun one two => score one ≠ score two := by
    rw [← List.pairwise_map]
    exact ((ranked_perm score entries).map score).nodup_iff.mpr distinct
  refine ((ranked_ordered score entries).and apart).imp ?_
  rintro one two ⟨less,differs⟩
  exact lt_of_le_of_ne less differs.symm

theorem ranking_unique {one two : List Entry} (first : one.Pairwise fun high low => score low < score high)
    (second : two.Pairwise fun high low => score low < score high) (same : one.Perm two) : one = two := by
  refine List.Perm.eq_of_pairwise ?_ first second same
  intro high low _ _ less more
  exact absurd more (lt_asymm less)

theorem ranked_order {one two : List Entry} (distinct : (one.map score).Nodup) (same : one.Perm two) :
    ranked score one = ranked score two := by
  have distinct_ : (two.map score).Nodup := (same.map score).nodup_iff.mp distinct
  apply ranking_unique (ranked_strictly distinct) (ranked_strictly distinct_)
  exact (ranked_perm score one).trans (same.trans (ranked_perm score two).symm)

theorem ranked_filter {entries : List Entry} (distinct : (entries.map score).Nodup) (keep : Entry → Bool) :
    ranked score (entries.filter keep) = (ranked score entries).filter keep := by
  have fewer : ((entries.filter keep).map score).Nodup := distinct.sublist (List.filter_sublist.map score)
  apply ranking_unique (ranked_strictly fewer) ((ranked_strictly distinct).filter keep)
  exact (ranked_perm score _).trans ((ranked_perm score entries).filter keep).symm

-- The first of those that some test keeps scores highest among them.
theorem ranked_first {entries rest : List Entry} {keep : Entry → Bool} {first : Entry}
    (kept : (ranked score entries).filter keep = first :: rest) :
    first ∈ entries ∧ keep first = true ∧ ∀ entry ∈ entries, keep entry = true → score entry ≤ score first := by
  have there : first ∈ (ranked score entries).filter keep := by
    rw [kept]
    exact List.mem_cons_self
  obtain ⟨present,passes⟩ := List.mem_filter.mp there
  refine ⟨(mem_ranked score).mp present,passes,?_⟩
  intro entry listed keeps
  have other : entry ∈ first :: rest := by
    rw [← kept]
    exact List.mem_filter.mpr ⟨(mem_ranked score).mpr listed,keeps⟩
  have ordered := (ranked_ordered score entries).filter keep
  rw [kept] at ordered
  rcases List.mem_cons.mp other with rfl | later
  · exact le_refl _
  · exact List.rel_of_pairwise_cons ordered later

end
end Foundation
