import Modelship.State.Fading
import Modelship.OpenAI.ResponsesState
import Modelship.OpenAI.Mcp.Loop

namespace Modelship.ResponsesState
open Foundation State
open MemoryStoreActor (visible live_visible expire_visible)

-- The listings of a server among the outputs of a path, each with its turn's response.
def listed (label : Json) (path : List Entry) : List (String × Json) :=
  path.flatMap fun entry =>
    (entry.output.filter fun item => isListTools item && item.get "server_label" == label).map (entry.responseId,·)

-- The tool of a server that a response echoes: the last, where it echoes several.
def echoed (label : Json) (response : Json) : Option Json :=
  ((response.items "tools").filter fun tool => tool.get "type" == .str "mcp" && tool.get "server_label" == label).getLast?

-- The record of a response, as long as it is there: the one handed over is.
def recorded (identity : String) (now : Int) (handed : Json) (s : Store) (responseId : String) : Option Json :=
  if .str responseId = handed.get "id" then some handed else
  if responseId = "" then none else (readRecord s identity responseId now).2.map Record.response

section
variable (origin : String → Option Json) (label : Json)

-- What a listing is good for: nothing if it failed, or if no record tells where it came from.
def good (found : String × Json) : Option Listing :=
  if (found.2.get "error").truthy then none else
  ((origin found.1).bind (echoed label)).map fun tool =>
    ⟨tool.get "server_url",tool.get "allowed_tools",found.2.items "tools"⟩

def newest (path : List Entry) : Option Listing := (listed label path).getLast?.bind (good origin label)

-- The same, telling a server never listed from one whose last listing is no good.
def seen (path : List Entry) : Option (Option Listing) := (listed label path).getLast?.map (good origin label)

theorem newest_seen {path : List Entry} {listing : Listing} :
    newest origin label path = some listing ↔ seen origin label path = some (some listing) := by
  unfold newest seen
  cases (listed label path).getLast? with
  | none => exact ⟨nofun,nofun⟩
  | some found => simp

theorem seen_append (earlier later : List Entry) :
    seen origin label (earlier ++ later) = (seen origin label later).or (seen origin label earlier) := by
  unfold seen listed
  rw [List.flatMap_append,List.getLast?_append]
  cases (later.flatMap _).getLast? with
  | none => rfl
  | some found => rfl

-- What went into a turn plays no part.
theorem newest_outputs {path other : List Entry}
    (same : path.map (fun entry => (entry.responseId,entry.output)) = other.map fun entry => (entry.responseId,entry.output)) :
    newest origin label path = newest origin label other := by
  have told : ∀ path : List Entry, listed label path =
      (path.map fun entry => (entry.responseId,entry.output)).flatMap fun part =>
        (part.2.filter fun item => isListTools item && item.get "server_label" == label).map (part.1,·) := by
    intro path
    rw [List.flatMap_map]
    rfl
  unfold newest
  rw [told path,told other,same]

theorem mcpTools_get (tools : List Json) : (mcpTools tools).get? label =
    (tools.filter fun tool => tool.get "type" == .str "mcp" && tool.get "server_label" == label).getLast? := by
  refine (Dict.fill_last (fun tool : Json => tool.get "server_label") id label).trans ?_
  simp [List.filter_filter,Bool.and_comm,beq_eq_decide]

-- One turn's listings, found as the turn's response echoes the servers.
theorem listingsIn_get (entry : Entry) :
    (mcpListingsIn (((origin entry.responseId).map (·.items "tools")).getD []) entry.output).get? label =
      seen origin label [entry] := by
  refine (Dict.fill_last (fun item : Json => item.get "server_label") _ label).trans ?_
  have same : (entry.output.filter isListTools).filter (fun item => decide (item.get "server_label" = label)) =
      entry.output.filter fun item => isListTools item && item.get "server_label" == label := by
    simp [List.filter_filter,Bool.and_comm,beq_eq_decide]
  rw [same]
  simp only [seen,listed,List.flatMap_cons,List.flatMap_nil,List.append_nil,List.getLast?_map,Option.map_map]
  cases last : (entry.output.filter fun item => isListTools item && item.get "server_label" == label).getLast? with
  | none => rfl
  | some item =>
      have stands := (List.mem_filter.mp (List.mem_of_getLast? last)).2
      have named : item.get "server_label" = label := by
        simp only [Bool.and_eq_true,beq_iff_eq] at stands
        exact stands.2
      simp only [Option.map_some,Function.comp_apply,good,named,mcpTools_get]
      cases origin entry.responseId with
      | none => simp
      | some response =>
          simp only [Option.map_some,Option.getD_some,Option.bind_some,echoed]
          split <;> simp_all

theorem setDefaults_get (found new : Dict Json (Option Listing)) :
    (setDefaults found new).get? label = (found.get? label).or (new.get? label) := by
  have told : ∀ (entries : List (Json × Option Listing)) (found : Dict Json (Option Listing)),
      (entries.foldl (fun found entry => if (found.get? entry.1).isSome then found else found.set entry.1 entry.2) found).get? label =
        (found.get? label).or ((entries.find? (·.1 = label)).map (·.2)) := by
    intro entries
    induction entries with
    | nil => simp
    | cons entry rest ih =>
        intro found
        rw [List.foldl_cons]
        cases held : found.get? entry.1 with
        | some listing =>
            rw [if_pos (Option.isSome_some),ih]
            by_cases here : entry.1 = label
            · subst here
              simp [held]
            · rw [List.find?_cons_of_neg (by simpa using here)]
        | none =>
            rw [if_neg (by simp),ih,Dict.get_set]
            by_cases here : entry.1 = label
            · subst here
              simp [held]
            · rw [if_neg here,List.find?_cons_of_neg (by simpa using here)]
  exact told new.entries found

end

-- Stores in which a reader at one time finds the same records.
def SameRecords (now : Int) (s t : Store) : Prop :=
  ∀ identity responseId, t.visible now (key identity responseId) = s.visible now (key identity responseId)

theorem SameRecords.of {now : Int} {s t : Store} (same : t.visible now = s.visible now) : SameRecords now s t :=
  fun _ _ => congrFun same _

theorem SameRecords.trans {now : Int} {s t u : Store} (one : SameRecords now s t) (two : SameRecords now t u) :
    SameRecords now s u :=
  fun identity responseId => (two identity responseId).trans (one identity responseId)

theorem readRecord_visible (s : Store) (identity responseId : String) (now : Int) :
    (readRecord s identity responseId now).1.visible now = s.visible now ∧
      (readRecord s identity responseId now).2 = (s.visible now (key identity responseId)).bind fun held =>
        match held.cell with
        | .value (.record record) => some record
        | _ => none := by
  obtain ⟨found,kept⟩ := s.live_visible (key identity responseId) now
  unfold readRecord MemoryStoreActor.get
  rw [← found]
  generalize s.live (key identity responseId) now = result at kept
  obtain ⟨t,held⟩ := result
  cases held with
  | none => exact ⟨kept,rfl⟩
  | some held =>
      obtain ⟨cell,expiresAt⟩ := held
      cases cell with
      | log entries => exact ⟨kept,rfl⟩
      | value value => cases value <;> exact ⟨kept,rfl⟩

theorem SameRecords.read {now : Int} {s t : Store} (same : SameRecords now s t) (identity responseId : String) :
    (readRecord t identity responseId now).2 = (readRecord s identity responseId now).2 := by
  rw [(readRecord_visible t identity responseId now).2,(readRecord_visible s identity responseId now).2,
    same identity responseId]

theorem refresh_same (ttl : Option Int) (identity log : String) (now : Int) (s : Store) :
    SameRecords now s (refresh ttl identity log now s) := by
  cases ttl with
  | none => exact fun _ _ => rfl
  | some ttl => exact fun other responseId => s.expire_visible (logKey_ne_key identity other log responseId) ttl now

theorem readRange_same (s : Store) (key : String) (start : Int) (stop : Option Int) (now : Int) :
    SameRecords now s (s.readRange key start stop now).1 := by
  obtain ⟨_,kept⟩ := s.live_visible key now
  have logged : (s.log key now).1 = (s.live key now).1 := by
    unfold MemoryStoreActor.log
    split
    · rename_i t entries expiresAt found
      rw [found]
    · rename_i t held _ found
      rw [found]
  rw [← logged] at kept
  exact .of kept

-- Reading a history touches no record.
theorem same_leaves (ttl : Option Int) (identity : String) (now : Int) : Leaves ttl identity now (SameRecords now) where
  refl _ := fun _ _ => rfl
  trans := SameRecords.trans
  ranged s log depth := readRange_same s (logKey identity log) 1 (some depth) now
  refreshed s log := refresh_same ttl identity log now s
  looked s responseId := .of (readRecord_visible s identity responseId now).1

section
variable {identity : String} {now : Int} {response : Json} {s t : Store}

theorem recorded_same (same : SameRecords now s t) (responseId : String) :
    recorded identity now response t responseId = recorded identity now response s responseId := by
  unfold recorded
  rw [same.read identity responseId]

theorem listingOrigin_recorded (s : Store) (entry : Entry) :
    SameRecords now s (listingOrigin identity now response s entry).1 ∧
      (listingOrigin identity now response s entry).2 = recorded identity now response s entry.responseId := by
  unfold listingOrigin recorded
  split
  · exact ⟨fun _ _ => rfl,rfl⟩
  · split
    · exact ⟨fun _ _ => rfl,rfl⟩
    · exact ⟨.of (readRecord_visible s identity entry.responseId now).1,rfl⟩

-- Newest turn first, each server as its last listing so far has it.
theorem listingsLoop_seen (same : SameRecords now s t) {found : Dict Json (Option Listing)} {later : List Entry}
    (known : ∀ label, found.get? label = seen (recorded identity now response s) label later) (turns : List Entry)
    (label : Json) : (mcpListingsLoop identity now response t found turns).2.get? label =
      seen (recorded identity now response s) label (turns.reverse ++ later) := by
  induction turns generalizing t found later with
  | nil => exact known label
  | cons entry rest ih =>
      have ⟨kept,origin⟩ : SameRecords now t (listingOrigin identity now response t entry).1 ∧ _ := listingOrigin_recorded t entry
      -- what is known of the turns after this one is known of them and this one, once it is dealt with
      have told : ∀ label, seen (recorded identity now response s) label ([entry] ++ later) =
          (found.get? label).or (seen (recorded identity now response s) label [entry]) := by
        intro label
        rw [seen_append,known label]
      rw [List.reverse_cons,List.append_assoc]
      simp only [mcpListingsLoop]
      split
      · rename_i all
        apply ih same
        intro label
        rw [told label]
        cases held : found.get? label with
        | some listing => rfl
        | none =>
            have unlisted : seen (recorded identity now response s) label [entry] = none := by
              simp only [seen,Option.map_eq_none_iff,List.getLast?_eq_none_iff,listed,List.flatMap_cons,List.flatMap_nil,
                List.append_nil,List.map_eq_nil_iff,List.filter_eq_nil_iff]
              intro item member listing
              simp only [Bool.and_eq_true,beq_iff_eq] at listing
              obtain ⟨tools,named⟩ := listing
              have there := List.all_eq_true.mp all label (List.mem_map.mpr ⟨item,List.mem_filter.mpr ⟨member,tools⟩,named⟩)
              rw [held] at there
              cases there
            rw [unlisted]
            rfl
      · apply ih (same.trans kept)
        intro label
        rw [told label,setDefaults_get,origin,recorded_same same,listingsIn_get]

theorem listings_member (s : Store) (path : List Entry) {label : Json} {listing : Listing} :
    (label,listing) ∈ (mcpListings identity now response s path).2 ↔
      newest (recorded identity now response s) label path = some listing := by
  have same : SameRecords now s s := fun _ _ => rfl
  have none : ∀ label, (Dict.empty : Dict Json (Option Listing)).get? label =
      seen (recorded identity now response s) label [] := fun _ => rfl
  have found := listingsLoop_seen same none path.reverse label
  rw [List.reverse_reverse,List.append_nil] at found
  rw [newest_seen,← found]
  unfold mcpListings
  constructor
  · intro member
    obtain ⟨⟨other,held⟩,present,same⟩ := List.mem_filterMap.mp member
    obtain ⟨kept,rfl,paired⟩ := Option.map_eq_some_iff.mp same
    cases paired
    exact Dict.mem_get_some present
  · intro held
    exact List.mem_filterMap.mpr ⟨(label,some listing),Dict.get_some_mem held,rfl⟩

theorem listings_nodup (s : Store) (path : List Entry) :
    ((mcpListings identity now response s path).2.map Prod.fst).Nodup := by
  unfold mcpListings
  generalize mcpListingsLoop identity now response s .empty path.reverse = result
  refine List.Sublist.nodup ?_ result.2.distinct
  dsimp only
  generalize result.2.entries = entries
  induction entries with
  | nil => exact .slnil
  | cons entry rest ih =>
      obtain ⟨label,held⟩ := entry
      cases held with
      | none => exact .cons _ ih
      | some listing => exact .cons_cons _ ih

end

-- The listings of a history as the loop holds them; `parse` validates the tools of one. A
-- server's url that is no string is that of no request.
def held (parse : List Json → Option (List Responses.ListedTool)) (listings : List (Json × Listing)) (label : String) :
    Option Mcp.Listing :=
  (listings.find? (·.1 = .str label)).bind fun entry =>
    match entry.2.serverUrl with
    | .str url => some ⟨url,entry.2.allowedTools,parse entry.2.tools⟩
    | _ => none

theorem held_from {parse : List Json → Option (List Responses.ListedTool)} {listings : List (Json × Listing)}
    {label : String} {found : Mcp.Listing} (has : held parse listings label = some found) :
    ∃ listing, (.str label,listing) ∈ listings ∧ listing.serverUrl = .str found.serverUrl ∧
      listing.allowedTools = found.allowedTools := by
  obtain ⟨⟨other,listing⟩,hit,same⟩ := Option.bind_eq_some_iff.mp has
  have named : other = .str label := by simpa using List.find?_some hit
  subst named
  refine ⟨listing,List.mem_of_find?_eq_some hit,?_⟩
  split at same
  · rename_i url told
    cases same
    exact ⟨told,rfl⟩
  · cases same

-- A stored listing is used only for the server and the policy it was made for.
theorem storedTools_same {env : Mcp.Environment} {spec : Mcp.McpToolSpec} (used : Mcp.storedTools env spec ≠ .ok none) :
    ∃ found, env.listings spec.serverLabel = some found ∧ found.serverUrl = spec.serverUrl ∧
      found.allowedTools = spec.allowedTools := by
  unfold Mcp.storedTools at used
  split at used
  · exact absurd rfl used
  · rename_i found has
    split at used
    · rename_i same
      exact ⟨found,has,same⟩
    · exact absurd rfl used

-- A conversation's listings are its newest good ones: those of the last listing of each
-- server, unless it failed or no record tells which tool it was made for.
theorem history_newest_listings (ttl : Option Int) (identity : String) (now : Int) {s t : Store} {response : Json}
    {position : Position} {history : History}
    (read : historyAsync ttl identity now s response position = (t,some history)) :
    ∃ path, (entries ttl identity now (refresh ttl identity position.log now s) position.log position.depth).2 = some path ∧
      (history.listings.map Prod.fst).Nodup ∧
      (∀ label listing, (label,listing) ∈ history.listings ↔
        newest (recorded identity now response s) label path = some listing) ∧
      (∀ label (other : List Entry), path.map (fun entry => (entry.responseId,entry.output)) =
          other.map (fun entry => (entry.responseId,entry.output)) →
        newest (recorded identity now response s) label path = newest (recorded identity now response s) label other) ∧
      (∀ responseId, (readRecord s identity responseId now).2 = some (.stored response position) →
        response.get "id" = .str responseId → ∀ other, other ≠ "" →
          recorded identity now response s other = (readRecord s identity other now).2.map Record.response) ∧
      (∀ parse (env : Mcp.Environment), env.listings = held parse history.listings →
        ∀ spec, Mcp.storedTools env spec ≠ .ok none →
          ∃ listing, newest (recorded identity now response s) (.str spec.serverLabel) path = some listing ∧
            listing.serverUrl = .str spec.serverUrl ∧ listing.allowedTools = spec.allowedTools) := by
  have refreshed := refresh_same ttl identity position.log now s
  have reached := refreshed.trans ((same_leaves ttl identity now).entries _ position.log position.depth)
  unfold historyAsync at read
  split at read
  · cases read
  · rename_i middle path found
    cases read
    rw [found] at reached
    have origin : recorded identity now response middle = recorded identity now response s :=
      funext fun responseId => recorded_same reached responseId
    have members : ∀ label listing, (label,listing) ∈ (mcpListings identity now response middle path).2 ↔
        newest (recorded identity now response s) label path = some listing := by
      intro label listing
      rw [← origin]
      exact listings_member middle path
    refine ⟨path,by rw [found],listings_nodup middle path,members,?_,?_,?_⟩
    · intro label other same
      exact newest_outputs _ label same
    · intro responseId stands own other named
      unfold recorded
      split
      · rename_i handed
        rw [own,Json.str.injEq] at handed
        rw [handed,stands]
        rfl
      · rfl
    · intro parse env listings spec used
      obtain ⟨found,has,url,allowed⟩ := storedTools_same used
      rw [listings] at has
      obtain ⟨listing,member,sameUrl,sameAllowed⟩ := held_from has
      exact ⟨listing,(members _ _).mp member,by rw [sameUrl,url],by rw [sameAllowed,allowed]⟩

-- Two servers listed in the first turn, one of them again and in vain in the second.
def listTools (label : String) (error : Json) : Json :=
  .obj [("type",.str "mcp_list_tools"),("server_label",.str label),("error",error),("tools",.arr [.str "search"])]
def mcpTool (label : String) : Json :=
  .obj [("type",.str "mcp"),("server_label",.str label),("server_url",.str "https://mcp"),("allowed_tools",.null)]
def echoing (responseId : String) : Json :=
  .obj [("id",.str responseId),("tools",.arr [mcpTool "docs",mcpTool "wiki"])]
def relisted : Store :=
  (((MemoryStoreActor.start 0 1).appendAndSet (logKey "u" "a") 1
      (.entry ⟨"a",[],[listTools "docs" .null,listTools "wiki" .null],none⟩)
      (key "u" "a") (.record (.stored (echoing "a") ⟨"a",1⟩)) none false 0).1.appendAndSet (logKey "u" "a") 2
    (.entry ⟨"b",[],[listTools "docs" (.str "down")],none⟩)
    (key "u" "b") (.record (.stored (echoing "b") ⟨"a",2⟩)) none false 0).1

theorem history_newest_listings_relisted :
    ∃ t history, historyAsync none "u" 9 relisted (echoing "b") ⟨"a",2⟩ = (t,some history) ∧
      (.str "wiki",⟨.str "https://mcp",.null,[.str "search"]⟩) ∈ history.listings ∧
      ∀ listing, (.str "docs",listing) ∉ history.listings := by
  have paths : (entries none "u" 9 relisted "a" 2).2 =
      some [⟨"a",[],[listTools "docs" .null,listTools "wiki" .null],none⟩,⟨"b",[],[listTools "docs" (.str "down")],none⟩] := by
    rw [entries]
    rfl
  obtain ⟨history,read⟩ : ∃ history, historyAsync none "u" 9 relisted (echoing "b") ⟨"a",2⟩ = (relisted,some history) := by
    unfold historyAsync
    rw [entries]
    exact ⟨_,rfl⟩
  obtain ⟨path,told,_,members,_⟩ := history_newest_listings none "u" 9 read
  cases told.symm.trans paths
  refine ⟨_,history,read,(members _ _).mpr (by decide +kernel),?_⟩
  intro listing member
  have failed := (members _ _).mp member
  rw [show newest _ (.str "docs") _ = none by decide +kernel] at failed
  cases failed

end Modelship.ResponsesState
