import Modelship.OpenAI.Adapter
import Modelship.Foundation.JsonText

namespace Modelship.Compaction
open Foundation JsonText Responses

-- The cipher the blobs are made with: what it takes for a key, a token of a text and
-- what a token holds, if it is one of the key's.
structure Cipher where
  valid : String → Bool
  encrypt (key : String) (nonce : Nat) (text : List Char) : String
  decrypt (key blob : String) : Option (List Char)

def ascii (text : String) : Bool := text.toList.all fun c => c.toNat < 128

structure Cipher.Lawful (cipher : Cipher) : Prop where
  opens : ∀ key nonce text, cipher.valid key = true →
    cipher.decrypt key (cipher.encrypt key nonce text) = some text
  token : ∀ key nonce text, text.all (·.toNat < 128) = true →
    ascii (cipher.encrypt key nonce text) = true ∧ cipher.encrypt key nonce text ≠ ""

-- The key in the store (null where there is none), the drivers that found none and have
-- not written theirs yet, and what each process has cached.
structure World where
  store : Json
  pending : List String
  cached : List (Option String)
deriving DecidableEq

def keyValue (key : String) : Json := .obj [("key",.str key)]

inductive Act where
  | begin (configured : Option String) (fresh : String)
  | seed (driver : Nat)
  | launch
  | resolve (process : Nat)
deriving DecidableEq

def start : World := ⟨.null,[],[]⟩

def storedKey (store : Json) : Option String := (store.get "key").str?

-- `_resolve_key` in a process; `none` if it raises.
def resolveKey (w : World) (process : Nat) : Option String := match w.cached[process]? with
  | some (some key) => some key
  | some none => storedKey w.store
  | none => none

-- The key a driver seeds: the configured one, else a new one.
def seedKey (configured : Option String) (fresh : String) : String := (configured.filter (· ≠ "")).getD fresh

section
variable (cipher : Cipher)

-- `ensure_key_seeded` looks and writes at two times; a key that is not one stops it.
def next (w : World) : Act → Option World
  | .begin configured fresh =>
    if w.store ≠ .null then some w else
    if cipher.valid (seedKey configured fresh) then some {w with pending := w.pending ++ [seedKey configured fresh]} else none
  | .seed driver => w.pending[driver]?.map fun key => {w with store := keyValue key,pending := w.pending.eraseIdx driver}
  | .launch => some {w with cached := w.cached ++ [none]}
  | .resolve process =>
    if process < w.cached.length then some {w with cached := w.cached.set process (resolveKey w process)} else none

def fernetKey (w : World) (process : Nat) : Option String := (resolveKey w process).filter cipher.valid

def encryptItems (w : World) (process nonce : Nat) (items : List Json) : Option String :=
  (fernetKey cipher w process).map fun key => cipher.encrypt key nonce (written (.arr items))

-- Without a key it raises something else than `InvalidToken`.
def decryptItems (w : World) (process : Nat) (blob : String) : Decoded := match fernetKey cipher w process with
  | none => .keyless
  | some key =>
    if !ascii blob then .invalidToken else
    match (cipher.decrypt key blob).bind loads with
    | some (.arr items) => .items items
    | _ => .invalidToken

-- Drivers seed in turns, or they are all given one key.
def Alone (w : World) : Act → Prop
  | .begin _ _ => w.pending = []
  | _ => True

instance (w : World) : (act : Act) → Decidable (Alone w act)
  | .begin _ _ => inferInstanceAs (Decidable (w.pending = []))
  | .seed _ | .launch | .resolve _ => isTrue trivial

def Configured (key : String) (_ : World) : Act → Prop
  | .begin configured _ => configured = some key
  | _ => True

def Ordered (acts : List Act) : Prop :=
  Meets (next cipher) Alone start acts ∨ ∃ key, key ≠ "" ∧ Meets (next cipher) (Configured key) start acts

-- No driver writes a key where there is another.
def Fits (w : World) : Act → Prop
  | .seed driver => ∀ key, w.pending[driver]? = some key → w.store = .null ∨ w.store = keyValue key
  | _ => True

structure Sound (w : World) : Prop where
  stored : w.store = .null ∨ ∃ key, cipher.valid key = true ∧ w.store = keyValue key
  pending : ∀ key ∈ w.pending, cipher.valid key = true
  cached : ∀ key, some key ∈ w.cached → w.store = keyValue key

end

section
variable {cipher : Cipher}

theorem keyValue_full (key : String) : keyValue key ≠ .null := by
  intro same
  cases same

theorem storedKey_value (key : String) : storedKey (keyValue key) = some key := rfl

theorem start_sound : Sound cipher start :=
  ⟨.inl rfl,fun _ there => absurd there List.not_mem_nil,fun _ there => absurd there List.not_mem_nil⟩

-- What a process resolves is what is stored.
theorem resolveKey_stored {w : World} (sound : Sound cipher w) {process : Nat} {key : String}
    (resolved : resolveKey w process = some key) : w.store = keyValue key := by
  unfold resolveKey at resolved
  split at resolved
  · rename_i cached
    cases resolved
    exact sound.cached key (List.mem_of_getElem? cached)
  · rcases sound.stored with absent | ⟨stored,_,value⟩
    · rw [absent] at resolved
      cases resolved
    · rw [value,storedKey_value] at resolved
      cases resolved
      exact value
  · cases resolved

theorem resolveKey_there {w : World} (sound : Sound cipher w) {process : Nat} (there : process < w.cached.length) {key : String}
    (value : w.store = keyValue key) : resolveKey w process = some key := by
  have stored : ∃ own, w.cached[process]? = some own := ⟨_,List.getElem?_eq_getElem there⟩
  obtain ⟨own,cached⟩ := stored
  cases own with
  | none => rw [resolveKey,cached,value,storedKey_value]
  | some other =>
      have same := sound.cached other (List.mem_of_getElem? cached)
      rw [value,keyValue,keyValue] at same
      simp only [Json.obj.injEq,List.cons.injEq,Prod.mk.injEq,Json.str.injEq,true_and,and_true] at same
      rw [resolveKey,cached,same]

-- One step: the store keeps the key it has.
theorem next_sound {w v : World} {act : Act} (sound : Sound cipher w) (fits : Fits w act) (taken : next cipher w act = some v) :
    Sound cipher v ∧ (w.store ≠ .null → v.store = w.store) := by
  cases act with
  | begin configured fresh =>
      rw [next] at taken
      split at taken
      · cases taken
        exact ⟨sound,fun _ => rfl⟩
      · split at taken
        · rename_i valid
          cases taken
          refine ⟨⟨sound.stored,?_,sound.cached⟩,fun _ => rfl⟩
          intro key there
          rcases List.mem_append.mp there with old | new
          · exact sound.pending key old
          · rw [List.mem_singleton.mp new]
            exact valid
        · cases taken
  | seed driver =>
      obtain ⟨key,held,rfl⟩ := Option.map_eq_some_iff.mp taken
      have valid := sound.pending key (List.mem_of_getElem? held)
      have clear := fits key held
      refine ⟨⟨.inr ⟨key,valid,rfl⟩,?_,?_⟩,?_⟩
      · intro other there
        exact sound.pending other (List.mem_of_mem_eraseIdx there)
      · intro other there
        rcases clear with absent | same
        · exact absurd ((sound.cached other there).symm.trans absent) (keyValue_full other)
        · exact same.symm.trans (sound.cached other there)
      · intro full
        exact (clear.resolve_left full).symm
  | launch =>
      cases taken
      refine ⟨⟨sound.stored,sound.pending,?_⟩,fun _ => rfl⟩
      intro key there
      exact sound.cached key (by simpa using there)
  | resolve process =>
      rw [next] at taken
      split at taken
      · cases taken
        refine ⟨⟨sound.stored,sound.pending,?_⟩,fun _ => rfl⟩
        intro key there
        rcases List.mem_or_eq_of_mem_set there with old | new
        · exact sound.cached key old
        · exact resolveKey_stored sound new.symm
      · cases taken

theorem execute_sound {w v : World} {acts : List Act} (sound : Sound cipher w) (fits : Meets (next cipher) Fits w acts)
    (ran : execute (next cipher) w acts = some v) : Sound cipher v ∧ (w.store ≠ .null → v.store = w.store) := by
  induction acts generalizing w with
  | nil =>
      cases ran
      exact ⟨sound,fun _ => rfl⟩
  | cons act rest ih =>
      obtain ⟨middle,taken,others⟩ := execute_cons.mp ran
      obtain ⟨now,kept⟩ := next_sound sound fits.1 taken
      obtain ⟨last,stays⟩ := ih now (fits.2 middle taken) others
      refine ⟨last,?_⟩
      intro full
      have same := kept full
      exact (stays (same ▸ full)).trans same

section
variable {w v : World} {act : Act}

-- Alone, a driver waits by itself, and only while nothing is stored.
theorem alone_waits (clear : w.pending = [] ∨ w.store = .null ∧ w.pending.length = 1) (alone : Alone w act)
    (taken : next cipher w act = some v) : v.pending = [] ∨ v.store = .null ∧ v.pending.length = 1 := by
  cases act with
  | begin configured fresh =>
      have none_ : w.pending = [] := alone
      rw [next] at taken
      split at taken
      · cases taken
        exact .inl none_
      · rename_i absent
        split at taken
        · cases taken
          exact .inr ⟨not_not.mp absent,by simp [none_]⟩
        · cases taken
  | seed driver =>
      obtain ⟨key,held,rfl⟩ := Option.map_eq_some_iff.mp taken
      have within : driver < w.pending.length := (List.getElem?_eq_some_iff.mp held).1
      rcases clear with none_ | ⟨_,one⟩
      · rw [none_] at within
        exact absurd within (Nat.not_lt_zero _)
      · refine .inl (List.length_eq_zero_iff.mp ?_)
        rw [List.length_eraseIdx_of_lt within,one]
  | launch =>
      cases taken
      exact clear
  | resolve process =>
      rw [next] at taken
      split at taken
      · cases taken
        exact clear
      · cases taken

-- Given one key, the drivers write no other.
theorem configured_waits {key : String} (full : key ≠ "") (clear : (∀ other ∈ w.pending, other = key) ∧
    (w.pending ≠ [] → w.store = .null ∨ w.store = keyValue key)) (configured : Configured key w act)
    (taken : next cipher w act = some v) :
    (∀ other ∈ v.pending, other = key) ∧ (v.pending ≠ [] → v.store = .null ∨ v.store = keyValue key) := by
  cases act with
  | begin own fresh =>
      have given : own = some key := configured
      have seeds : seedKey own fresh = key := by simp [seedKey,given,Option.filter_some,full]
      rw [next,seeds] at taken
      split at taken
      · cases taken
        exact clear
      · rename_i absent
        split at taken
        · cases taken
          refine ⟨?_,fun _ => .inl (not_not.mp absent)⟩
          intro other there
          rcases List.mem_append.mp there with old | new
          · exact clear.1 other old
          · exact List.mem_singleton.mp new
        · cases taken
  | seed driver =>
      obtain ⟨other,held,rfl⟩ := Option.map_eq_some_iff.mp taken
      have same := clear.1 other (List.mem_of_getElem? held)
      refine ⟨?_,fun _ => .inr (congrArg keyValue same)⟩
      intro one there
      exact clear.1 one (List.mem_of_mem_eraseIdx there)
  | launch =>
      cases taken
      exact clear
  | resolve process =>
      rw [next] at taken
      split at taken
      · cases taken
        exact clear
      · cases taken

theorem ordered_fits {acts : List Act} (ordered : Ordered cipher acts) : Meets (next cipher) Fits start acts := by
  rcases ordered with alone | ⟨key,full,configured⟩
  · refine meets_under (fun _ _ _ => alone_waits) ?_ (.inl rfl) alone
    intro w act clear _
    cases act with
    | seed driver =>
        intro key held
        rcases clear with none_ | ⟨absent,_⟩
        · rw [none_] at held
          cases held
        · exact .inl absent
    | begin _ _ | launch | resolve _ => trivial
  · refine meets_under (fun _ _ _ => configured_waits full) ?_ ⟨fun _ there => absurd there List.not_mem_nil,
      fun waits => absurd rfl waits⟩ configured
    intro w act clear _
    cases act with
    | seed driver =>
        intro other held
        rw [clear.1 other (List.mem_of_getElem? held)]
        exact clear.2 (List.ne_nil_of_mem (List.mem_of_getElem? held))
    | begin _ _ | launch | resolve _ => trivial

end

end

-- Reading adds messages at the end and looks at none of those before.
def after (before : List ChatMessage) (r : Reading) : Reading := {r with messages := before ++ r.messages}

section
variable (before : List ChatMessage) (r : Reading) (carried : Option String) (item : Json)

theorem functionCall_after : (after before r).functionCall carried item = after before <$> r.functionCall carried item := by
  simp [Reading.functionCall,Reading.calls,Reading.say,after,apply_ite (after before <$> ·),throw,throwThe,MonadExceptOf.throw]

theorem mcpCall_after : (after before r).mcpCall carried item = after before <$> r.mcpCall carried item := by
  simp [Reading.mcpCall,Reading.calls,Reading.answers,Reading.say,after,apply_ite (after before <$> ·),throw,throwThe,
    MonadExceptOf.throw]

theorem functionCallOutput_after : (after before r).functionCallOutput item = after before <$> r.functionCallOutput item := by
  simp [Reading.functionCallOutput,Reading.answers,Reading.say,after,apply_ite (after before <$> ·),throw,throwThe,
    MonadExceptOf.throw]

theorem reasoning_after : (after before r).reasoning item = after before <$> r.reasoning item := by
  unfold Reading.reasoning
  rw [map_bind]
  refine bind_congr fun text => ?_
  split
  · simp [after]
  · simp [after]

theorem message_after : (after before r).message carried item = after before <$> r.message carried item := by
  simp [Reading.message,Reading.say,after,apply_ite (after before <$> ·)]

variable (decrypt : String → Decoded) (inner : Reader)

theorem compaction_after : (after before r).compaction decrypt inner item = after before <$> r.compaction decrypt inner item := by
  unfold Reading.compaction
  split
  · rfl
  · split
    · rfl
    · rfl
    · simp [after,apply_ite (after before <$> ·),throw,throwThe,MonadExceptOf.throw]
  · split
    · rfl
    · rfl

theorem readItem_after : readItem decrypt inner (after before r) item = after before <$> readItem decrypt inner r item := by
  unfold readItem
  split
  · dsimp only
    split
    · exact functionCall_after before {r with carried := none} r.carried _
    · exact mcpCall_after before {r with carried := none} r.carried _
    · rfl
    · rfl
    · rfl
    · exact functionCallOutput_after before {r with carried := none} _
    · exact reasoning_after before {r with carried := none} _
    · exact compaction_after before {r with carried := none} _ decrypt inner
    · exact message_after before {r with carried := none} r.carried _
    · split
      · exact message_after before {r with carried := none} r.carried _
      · rfl
  · rfl

theorem readItems_after (items : List Json) :
    items.foldlM (readItem decrypt inner) (after before r) = after before <$> items.foldlM (readItem decrypt inner) r := by
  induction items generalizing r with
  | nil => rfl
  | cons item rest ih =>
      rw [List.foldlM_cons,List.foldlM_cons,readItem_after,map_bind,bind_map_left]
      exact bind_congr fun read => ih read

end

section
variable {decrypt : String → Decoded} {item : Json} {items : List Json}

-- A blob in front of other items: what it holds is read, and then the others are as if
-- they stood alone.
theorem messagesFromItems_compaction (typed : item.get "type" = .str "compaction") {blob : String}
    (content : item.get "encrypted_content" = .str blob) (full : blob ≠ "") (decoded : decrypt blob = .items items)
    (flat : items.any isCompaction = false) (rest : List Json) (systemParts : List String) :
    messagesFromItems decrypt (item :: rest) systemParts = (do
      let (messages,systemParts) ← messagesFromItems decrypt items systemParts
      let (more,systemParts) ← messagesFromItems decrypt rest systemParts
      return (messages ++ more,systemParts)) := by
  have object : ∃ fields, item = .obj fields := by
    cases item with
    | obj fields => exact ⟨fields,rfl⟩
    | null | bool _ | num _ | str _ | arr _ => cases typed
  obtain ⟨fields,rfl⟩ := object
  have first : readItem decrypt (messagesFromItems decrypt) ⟨[],[],none,systemParts⟩ (.obj fields) =
      (messagesFromItems decrypt items systemParts >>= fun read => pure ⟨read.1,[],none,read.2⟩) := by
    simp only [readItem,typed,Reading.compaction,content,decoded,flat]
    rfl
  conv_lhs => rw [messagesFromItems_recursive]
  unfold readItems
  rw [List.foldlM_cons,first]
  simp only [bind_assoc,pure_bind]
  refine bind_congr fun read => ?_
  have placed : (⟨read.1,[],none,read.2⟩ : Reading) = after read.1 ⟨[],[],none,read.2⟩ := by simp [after]
  rw [placed,readItems_after]
  conv_rhs => rw [messagesFromItems_recursive]
  simp [readItems,after]

end

section
variable {cipher : Cipher} {acts later : List Act} {w v : World} {writer reader nonce : Nat} {items : List Json} {blob : String}

-- What one process encrypts, every process decrypts from then on.
theorem decryptItems_encrypted (lawful : cipher.Lawful) (ordered : Ordered cipher (acts ++ later))
    (ran : execute (next cipher) start acts = some w) (since : execute (next cipher) w later = some v)
    (wrote : encryptItems cipher w writer nonce items = some blob) (there : reader < v.cached.length)
    (proper : ProperValues items) : decryptItems cipher v reader blob = .items items ∧ blob ≠ "" := by
  obtain ⟨earlier,more⟩ := meets_append (ordered_fits ordered) ran
  have sound := (execute_sound start_sound earlier ran).1
  obtain ⟨last,stays⟩ := execute_sound sound more since
  obtain ⟨key,held,rfl⟩ := Option.map_eq_some_iff.mp wrote
  obtain ⟨resolved,valid⟩ := Option.filter_eq_some_iff.mp held
  have value := resolveKey_stored sound resolved
  have full : w.store ≠ .null := value ▸ keyValue_full key
  have same : fernetKey cipher v reader = some key :=
    Option.filter_eq_some_iff.mpr ⟨resolveKey_there last there ((stays full).trans value),valid⟩
  have plain : (written (.arr items)).all (·.toNat < 128) = true := by
    rw [List.all_eq_true]
    intro c member
    have most := (written_plain _ c member).2
    exact decide_eq_true (by omega)
  obtain ⟨tokens,nonempty⟩ := lawful.token key nonce _ plain
  have read : loads (written (.arr items)) = some (.arr items) := by
    have whole := loads_written (show Proper (.arr items) from proper) (show ([] : List Char).all blank = true from rfl)
    rwa [List.append_nil] at whole
  refine ⟨?_,nonempty⟩
  simp [decryptItems,same,tokens,lawful.opens key nonce _ valid,read]

-- A conversation goes on from its compaction in any process and at any later time, as
-- if its items were there.
theorem compaction_continues (lawful : cipher.Lawful) (ordered : Ordered cipher (acts ++ later))
    (ran : execute (next cipher) start acts = some w) (since : execute (next cipher) w later = some v)
    (wrote : encryptItems cipher w writer nonce items = some blob) (there : reader < v.cached.length)
    (proper : ProperValues items) (flat : items.any isCompaction = false) {item : Json}
    (typed : item.get "type" = .str "compaction") (content : item.get "encrypted_content" = .str blob) (rest : List Json)
    (systemParts : List String) : messagesFromItems (decryptItems cipher v reader) (item :: rest) systemParts = (do
      let (messages,systemParts) ← messagesFromItems (decryptItems cipher v reader) items systemParts
      let (more,systemParts) ← messagesFromItems (decryptItems cipher v reader) rest systemParts
      return (messages ++ more,systemParts)) := by
  obtain ⟨decoded,full⟩ := decryptItems_encrypted lawful ordered ran since wrote there proper
  exact messagesFromItems_compaction typed content full decoded flat rest systemParts

end

def marked : Cipher where
  valid _ := true
  encrypt key _ text := String.ofList (List.replicate key.length 'k' ++ '.' :: text)
  decrypt key blob := if (List.replicate key.length 'k').isPrefixOf blob.toList then some (blob.toList.drop
    (key.length + 1)) else none

theorem marked_lawful : marked.Lawful := by
  constructor
  · intro key nonce text _
    simp [marked,List.drop_append]
  · intro key nonce text plain
    simp_all [marked,ascii]

def summary : Json := .obj [("type",.str "message"),("role",.str "assistant"),("content",.str "a summary")]

def goOn : Json := .obj [("role",.str "user"),("content",.str "go on")]

def seeding : List Act := [.begin none "k1",.seed 0,.launch,.launch]

def later : List Act := [.begin (some "k2") "k3",.resolve 0]

def seeded : World := ⟨keyValue "k1",[],[none,none]⟩

def resumed : World := ⟨keyValue "k1",[],[some "k1",none]⟩

theorem seeding_alone : Meets (next marked) Alone start (seeding ++ later) := by
  decide

theorem compaction_continues_elsewhere : ∃ blob, encryptItems marked seeded 0 7 [summary] = some blob ∧
    messagesFromItems (decryptItems marked resumed 1) [.obj [("type",.str "compaction"),("encrypted_content",.str blob)],
      goOn] [] =
      .ok ([⟨.str "assistant",.str "a summary",[],none,none⟩,⟨.str "user",.str "go on",[],none,none⟩],[]) := by
  obtain ⟨blob,wrote⟩ : ∃ blob, encryptItems marked seeded 0 7 [summary] = some blob := ⟨_,rfl⟩
  have ran : execute (next marked) start seeding = some seeded := rfl
  have since : execute (next marked) seeded later = some resumed := rfl
  have proper : ProperValues [summary] := by simp [summary,Proper,ProperValues,ProperFields]
  refine ⟨blob,wrote,?_⟩
  rw [compaction_continues marked_lawful (.inl seeding_alone) ran since wrote (by decide) proper rfl rfl rfl]
  rfl

end Modelship.Compaction
