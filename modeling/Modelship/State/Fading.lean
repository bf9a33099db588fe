import Modelship.State.Memory

namespace Modelship.State.MemoryStoreActor
open Foundation

-- Under a ttl a key can be gone at any call. `t` holds nothing that `s` did not.
def Fades (s t : MemoryStoreActor Value) : Prop := ∀ key cell, t.cells key = some cell → s.cells key = some cell

theorem Fades.refl (s : MemoryStoreActor Value) : Fades s s := fun _ _ found => found

theorem Fades.trans {s t u : MemoryStoreActor Value} (first : Fades s t) (second : Fades t u) : Fades s u :=
  fun key cell found => first key cell (second key cell found)

-- A log is as it was, or gone.
theorem Fades.logAt {s t : MemoryStoreActor Value} (fades : Fades s t) (key : String) :
    t.logAt key = [] ∨ t.logAt key = s.logAt key := by
  unfold MemoryStoreActor.logAt
  cases found : t.cells key with
  | none => exact .inl rfl
  | some cell =>
      rw [fades key cell found]
      exact .inr rfl

theorem sweep_fades (s : MemoryStoreActor Value) (now : Int) : Fades s (s.maybeSweep now) := by
  intro key cell found
  unfold maybeSweep at found
  split at found
  · exact found
  · obtain ⟨held,kept,rfl⟩ := Option.map_eq_some_iff.mp found
    rw [Dict.get_select] at kept
    obtain ⟨present,_⟩ := Option.filter_eq_some_iff.mp kept
    simp [cells,present]

theorem live_fades (s : MemoryStoreActor Value) (key : String) (now : Int) :
    Fades s (s.live key now).1 ∧ ∀ held, (s.live key now).2 = some held → s.data.get? key = some held := by
  unfold live
  cases found : s.data.get? key with
  | none => exact ⟨Fades.refl s,nofun⟩
  | some held =>
      simp only
      split
      · refine ⟨?_,nofun⟩
        intro other cell left
        simp only [cells,Dict.get_erase] at left
        split at left
        · cases left
        · exact left
      · exact ⟨Fades.refl s,fun _ same => same⟩

-- What a read at one time finds of a key. It is found by the next read too.
def visible (s : MemoryStoreActor Value) (now : Int) (key : String) : Option (Held Value) :=
  (s.data.get? key).filter fun held => !held.expired now

theorem live_visible (s : MemoryStoreActor Value) (key : String) (now : Int) :
    (s.live key now).2 = s.visible now key ∧ (s.live key now).1.visible now = s.visible now := by
  unfold live visible
  cases found : s.data.get? key with
  | none => exact ⟨rfl,rfl⟩
  | some held =>
      dsimp only
      cases dead : held.expired now with
      | false =>
          rw [if_neg Bool.false_ne_true]
          exact ⟨by simp [Option.filter,dead],rfl⟩
      | true =>
          rw [if_pos rfl]
          refine ⟨by simp [Option.filter,dead],?_⟩
          funext other
          rw [Dict.get_erase]
          split
          · rename_i same
            rw [← same,found]
            simp [Option.filter,dead]
          · rfl

theorem expire_visible (s : MemoryStoreActor Value) {key other : String} (apart : key ≠ other) (ttl now : Int) :
    (s.expire key ttl now).visible now other = s.visible now other := by
  obtain ⟨_,kept⟩ := s.live_visible key now
  unfold expire
  split
  · rename_i t held found
    rw [found] at kept
    rw [← kept]
    unfold visible
    dsimp only
    rw [Dict.get_set,if_neg apart]
  · rename_i t found
    rw [found] at kept
    rw [← kept]

theorem get_fades (s : MemoryStoreActor Value) (key : String) (now : Int) :
    Fades s (s.get key now).1 ∧ ∀ cell, (s.get key now).2 = some cell → s.cells key = some cell := by
  obtain ⟨fades,same⟩ := s.live_fades key now
  refine ⟨fades,?_⟩
  intro cell found
  obtain ⟨held,present,rfl⟩ := Option.map_eq_some_iff.mp found
  simp [cells,same held present]

theorem log_fades (s : MemoryStoreActor Value) (key : String) (now : Int) :
    Fades s (s.log key now).1 ∧ ((s.log key now).2 = [] ∨ (s.log key now).2 = s.logAt key) := by
  obtain ⟨fades,same⟩ := s.live_fades key now
  unfold log
  split
  · rename_i t entries expiresAt found
    rw [found] at fades same
    refine ⟨fades,.inr ?_⟩
    simp [logAt,cells,same _ rfl]
  · rename_i t held _ found
    rw [found] at fades
    exact ⟨fades,.inl rfl⟩

theorem readRange_fades (s : MemoryStoreActor Value) (key : String) (start : Int) (stop : Option Int) (now : Int) :
    Fades s (s.readRange key start stop now).1 ∧ ((s.readRange key start stop now).2 = [] ∨
      (s.readRange key start stop now).2 =
        ((s.logAt key).filter (fun entry => inRange start stop entry.1)).map Prod.snd) := by
  obtain ⟨fades,same⟩ := s.log_fades key now
  refine ⟨fades,?_⟩
  unfold readRange
  rcases same with nothing | all
  · exact .inl (by simp [nothing])
  · exact .inr (by simp [all])

theorem expire_fades (s : MemoryStoreActor Value) (key : String) (ttl now : Int) : Fades s (s.expire key ttl now) := by
  obtain ⟨fades,same⟩ := s.live_fades key now
  unfold expire
  split
  · rename_i t held found
    rw [found] at fades same
    intro other cell left
    simp only [cells,Dict.get_set] at left
    split at left
    · rename_i equal
      subst other
      cases left
      simp [cells,same held rfl]
    · exact fades other cell left
  · rename_i t found
    rw [found] at fades
    exact fades

-- What one more cell leaves of the others.
theorem store_fades (s : MemoryStoreActor Value) (key : String) (held : Held Value) (now : Int) :
    ∀ other cell, ({s with data := s.data.set key held}.maybeSweep now).cells other = some cell →
      if key = other then cell = held.cell else s.cells other = some cell := by
  intro other cell found
  have swept := sweep_fades _ now other cell found
  simp only [cells,Dict.get_set] at swept
  by_cases same : key = other
  · rw [if_pos same] at swept ⊢
    cases swept
    rfl
  · rw [if_neg same] at swept ⊢
    exact swept

-- A refused write leaves less at most. An accepted one adds its entry to the log
-- as the call found it, which may be nothing.
theorem appendAndSet_fades (s : MemoryStoreActor Value) (logKey : String) (position : Nat) (entry : Value)
    (key : String) (value : Value) (ttl : Option Int) (now : Int) :
    (∃ t, s.appendAndSet logKey position entry key value ttl false now = (t,false) ∧ Fades s t) ∨
    ∃ t entries, s.appendAndSet logKey position entry key value ttl false now = (t,true) ∧
      (entries = [] ∨ entries = s.logAt logKey) ∧ taken entries position = false ∧
      ∀ other cell, t.cells other = some cell →
        if key = other then cell = .value value else
        if logKey = other then cell = .log (entries ++ [(position,entry)]) else s.cells other = some cell := by
  obtain ⟨fades,found⟩ := s.log_fades logKey now
  unfold appendAndSet append
  simp only [Bool.false_eq_true,if_false,Bool.false_and]
  cases busy : taken (s.log logKey now).2 position with
  | true => exact .inl ⟨_,by simp,fades⟩
  | false =>
      refine .inr ⟨_,(s.log logKey now).2,by simp; rfl,found,busy,?_⟩
      intro other cell left
      have last := store_fades _ key _ now other cell left
      by_cases same : key = other
      · rw [if_pos same] at last ⊢
        exact last
      · rw [if_neg same] at last ⊢
        have before := store_fades _ logKey _ now other cell last
        by_cases here : logKey = other
        · rw [if_pos here] at before ⊢
          exact before
        · rw [if_neg here] at before ⊢
          exact fades other cell before

end Modelship.State.MemoryStoreActor
