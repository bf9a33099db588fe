import Mathlib.Data.Fintype.EquivFin
import Mathlib.Data.String.Basic
import Modelship.Foundation.Runs
import Modelship.OpenAI.Mcp.Spec

namespace Modelship.Mcp
open Foundation Responses

-- The policies of an accepted tool, asked about the tools its server turns out to have.

-- A `tool_names` value: absent, or a list of strings.
def listedNames : Json → Option (List String)
  | .null => some []
  | .arr values => values.mapM Json.str?
  | _ => none

theorem named_ok {spec : McpToolSpec} {tool : ListedTool} {field : String} {bucket : Json} {answer : Bool} :
    named spec tool field bucket = .ok answer ↔
      ∃ names, listedNames (bucket.get "tool_names") = some names ∧ answer = names.contains tool.name := by
  unfold named
  dsimp only
  cases given : bucket.get "tool_names" with
  | null => simp [isNull,listedNames,eq_comm]
  | arr values =>
      cases read : values.mapM Json.str? with
      | none => simp [isNull,listedNames,toolNames,read,bind,Except.bind]
      | some names => simp [isNull,listedNames,toolNames,read,bind,Except.bind,pure,Except.pure,eq_comm]
  | _ => simp [isNull,listedNames,toolNames,bind,Except.bind]

theorem keepNamed_any {spec : McpToolSpec} {field : String} {names : Json} {tools kept : List ListedTool}
    (kept_ : keepNamed spec field names tools = .ok kept) (others : List ListedTool) :
    ∃ rest, keepNamed spec field names others = .ok rest := by
  unfold keepNamed at kept_ ⊢
  split
  · exact ⟨others,rfl⟩
  · rename_i present
    rw [if_neg present] at kept_
    obtain ⟨read,listed,_⟩ := bind_ok.mp kept_
    rw [listed]
    exact ⟨_,rfl⟩

-- Whether `filter_tools` raises does not depend on the tools.
theorem filterTools_any {spec : McpToolSpec} {tools kept : List ListedTool} (filtered : filterTools spec tools = .ok kept)
    (others : List ListedTool) : ∃ rest, filterTools spec others = .ok rest := by
  unfold filterTools at filtered ⊢
  generalize spec.allowedTools = allowed at filtered ⊢
  cases allowed with
  | null => exact ⟨others,rfl⟩
  | arr values => exact keepNamed_any filtered others
  | obj fields =>
      obtain ⟨first,named_,_⟩ := bind_ok.mp filtered
      obtain ⟨rest,again⟩ := keepNamed_any named_ others
      dsimp only
      rw [again]
      exact ⟨_,rfl⟩
  | _ => cases filtered

theorem asBucket_get {value bucket : Json} (read : asBucket value = some bucket) (key : String) :
    bucket.get key = value.get key := by
  unfold asBucket at read
  split at read
  · split at read
    · cases read
      rfl
    · cases read
  · rename_i falsy
    cases read
    cases value with
    | obj fields =>
        cases fields with
        | nil => rfl
        | cons field rest => simp [Json.truthy] at falsy
    | _ => rfl

-- `never` and `always` as `requires_approval` reads them, for the object it reads them in.
theorem requiresApproval_reads {spec : McpToolSpec} {fields : List (String × Json)} {never always : Json}
    (approval : spec.requireApproval = .obj fields) (first : asBucket ((Json.obj fields).get "never") = some never)
    (second : asBucket ((Json.obj fields).get "always") = some always) (tool : ListedTool) :
    (∃ needed, requiresApproval spec tool = .ok needed) ↔
      ∃ names, listedNames (never.get "tool_names") = some names ∧
        (tool.name ∈ names ∨ (listedNames (always.get "tool_names")).isSome) := by
  unfold requiresApproval
  simp only [approval,first,second]
  constructor
  · intro ⟨needed,done⟩
    obtain ⟨spared,asked,rest⟩ := bind_ok.mp done
    obtain ⟨names,read,same⟩ := named_ok.mp asked
    refine ⟨names,read,?_⟩
    cases spared with
    | true => exact .inl (by simpa using same.symm)
    | false =>
        obtain ⟨wanted,others,_⟩ := bind_ok.mp rest
        obtain ⟨more,listed,_⟩ := named_ok.mp others
        exact .inr (by rw [listed]; rfl)
  · intro ⟨names,read,either⟩
    have asked : named spec tool "require_approval.never.tool_names" never = .ok (names.contains tool.name) :=
      named_ok.mpr ⟨names,read,rfl⟩
    rw [asked]
    cases spared : names.contains tool.name with
    | true => exact ⟨false,rfl⟩
    | false =>
        have absent : tool.name ∉ names := by simpa using spared
        obtain ⟨more,listed⟩ := Option.isSome_iff_exists.mp (either.resolve_left absent)
        have others : named spec tool "require_approval.always.tool_names" always = .ok (more.contains tool.name) :=
          named_ok.mpr ⟨more,listed,rfl⟩
        simp only [bind,Except.bind,others,Bool.false_eq_true,if_false]
        split
        · exact ⟨true,rfl⟩
        · split
          · exact ⟨false,rfl⟩
          · split
            · exact ⟨true,rfl⟩
            · exact ⟨true,rfl⟩

-- The resolvers raise for no tools.
def Resolves (spec : McpToolSpec) : Prop :=
  (∀ tools, ∃ kept, filterTools spec tools = .ok kept) ∧ ∀ tool, ∃ needed, requiresApproval spec tool = .ok needed

-- The probe's name stands in `never`, so that it returns before `always`, whose names
-- are malformed.
def Hides (approval : Json) : Prop :=
  (∃ names, listedNames ((approval.get "never").get "tool_names") = some names ∧ "" ∈ names) ∧
    listedNames ((approval.get "always").get "tool_names") = none

theorem exists_unlisted (names : List String) : ∃ name, name ∉ names := by
  obtain ⟨name,fresh⟩ := Infinite.exists_notMem_finset names.toFinset
  exact ⟨name,fun listed => fresh (List.mem_toFinset.mpr listed)⟩

theorem approval_passed {spec : McpToolSpec} {rest : Except ErrorResponse Unit} (valid : (match spec.requireApproval with
    | .obj fields => do
      validateBucket spec (.obj fields) "never"
      validateBucket spec (.obj fields) "always"
      rest
    | _ => rest) = .ok ()) : rest = .ok () := by
  split at valid
  · obtain ⟨_,_,others⟩ := bind_ok.mp valid
    obtain ⟨_,_,last⟩ := bind_ok.mp others
    exact last
  · exact valid

theorem validatePolicyShapes_probed {spec : McpToolSpec} (valid : validatePolicyShapes spec = .ok ()) :
    (∃ kept, filterTools spec [] = .ok kept) ∧ ∃ needed, requiresApproval spec ⟨"",.obj [],none,none⟩ = .ok needed := by
  have probed : (do
      let _ ← filterTools spec []
      let _ ← requiresApproval spec ⟨"",.obj [],none,none⟩) = .ok () := by
    unfold validatePolicyShapes at valid
    dsimp only at valid
    split at valid
    · split at valid
      · obtain ⟨_,_,others⟩ := bind_ok.mp valid
        exact approval_passed others
      · exact approval_passed valid
    · exact approval_passed valid
  obtain ⟨kept,filtered,last⟩ := bind_ok.mp probed
  obtain ⟨needed,asked,_⟩ := bind_ok.mp last
  exact ⟨⟨kept,filtered⟩,needed,asked⟩

-- What is no object is resolved without the tool.
theorem requiresApproval_plain {spec : McpToolSpec} (plain : ∀ fields, spec.requireApproval ≠ .obj fields)
    (one two : ListedTool) : requiresApproval spec one = requiresApproval spec two := by
  unfold requiresApproval
  dsimp only
  split
  · rfl
  · rfl
  · rfl
  · rename_i fields same
    exact absurd same (plain fields)
  · rfl

theorem validated_resolves {spec : McpToolSpec} (valid : validatePolicyShapes spec = .ok ()) :
    Resolves spec ↔ ¬Hides spec.requireApproval := by
  obtain ⟨⟨kept,filtered⟩,probe⟩ := validatePolicyShapes_probed valid
  have filters := filterTools_any filtered
  cases approval : spec.requireApproval with
  | obj fields =>
      -- both buckets are objects, or read as empty ones
      have buckets : ∃ never always, asBucket ((Json.obj fields).get "never") = some never ∧
          asBucket ((Json.obj fields).get "always") = some always := by
        obtain ⟨needed,asked⟩ := probe
        unfold requiresApproval at asked
        simp only [approval] at asked
        split at asked
        · exact ⟨_,_,‹_›,‹_›⟩
        · cases asked
      obtain ⟨never,always,first,second⟩ := buckets
      obtain ⟨names,read,probed⟩ := (requiresApproval_reads approval first second _).mp probe
      unfold Hides
      rw [← asBucket_get first,← asBucket_get second,read]
      constructor
      · intro ⟨_,needs⟩ ⟨_,malformed⟩
        obtain ⟨name,fresh⟩ := exists_unlisted names
        obtain ⟨others,same,either⟩ := (requiresApproval_reads approval first second ⟨name,.obj [],none,none⟩).mp (needs _)
        rw [read] at same
        cases same
        rw [malformed] at either
        rcases either with listed | nothing
        · exact fresh listed
        · cases nothing
      · intro shown
        refine ⟨filters,?_⟩
        intro tool
        apply (requiresApproval_reads approval first second tool).mpr
        refine ⟨names,read,.inr ?_⟩
        rcases probed with empty | listed
        · by_contra malformed
          exact shown ⟨⟨names,rfl,empty⟩,Option.not_isSome_iff_eq_none.mp malformed⟩
        · exact listed
  | _ =>
      have shown : ∀ value : Json, value.fields = [] → ¬Hides value := by
        intro value plain ⟨⟨names,read,empty⟩,_⟩
        simp only [Json.get,Json.find?,plain,List.find?_nil,Option.map_none,Option.getD_none] at read
        cases read
        cases empty
      refine iff_of_true ⟨filters,?_⟩ (shown _ rfl)
      intro tool
      rw [requiresApproval_plain (by rw [approval]; nofun) tool ⟨"",.obj [],none,none⟩]
      exact probe

section
variable {complaint : Json → String} {specs : List McpToolSpec} {other : List Json}

theorem parseTool_parts {seen : List String} {tool : Json} {spec : McpToolSpec} (parsed : parseTool complaint seen tool = .ok spec) :
    spec.requireApproval = tool.get "require_approval" ∧ validatePolicyShapes spec = .ok () := by
  unfold parseTool at parsed
  dsimp only at parsed
  have named_ := unless_ok (unless_ok (unless_ok parsed))
  split at named_
  · have fresh := unless_ok named_
    split at fresh
    · cases fresh
    · rename_i read
      obtain ⟨_,valid,same⟩ := bind_ok.mp fresh
      cases same
      obtain ⟨url,_,typed⟩ := Option.bind_eq_some_iff.mp read
      refine ⟨?_,valid⟩
      unfold parseSpec at typed
      dsimp only at typed
      split at typed
      · cases typed
        rfl
      · cases typed
  · cases named_

-- Each spec is one `mcp` tool's, and has passed the check.
theorem splitFrom_parts {seen : List String} {tools : List Json} (done : splitFrom complaint seen tools = .ok (specs,other)) :
    (∀ spec ∈ specs, validatePolicyShapes spec = .ok () ∧
      ∃ tool ∈ tools, tool.get "type" = .str "mcp" ∧ spec.requireApproval = tool.get "require_approval") ∧
    ∀ tool ∈ tools, tool.get "type" = .str "mcp" → ∃ spec ∈ specs, spec.requireApproval = tool.get "require_approval" := by
  induction tools generalizing seen specs other with
  | nil =>
      cases done
      exact ⟨nofun,nofun⟩
  | cons tool rest ih =>
      unfold splitFrom at done
      split at done
      · rename_i mcp
        obtain ⟨spec,parsed,others⟩ := bind_ok.mp done
        obtain ⟨⟨more,left⟩,split,same⟩ := bind_ok.mp others
        cases same
        obtain ⟨valid,from_⟩ := ih split
        obtain ⟨approval,checked⟩ := parseTool_parts parsed
        constructor
        · intro found member
          rcases List.mem_cons.mp member with rfl | later
          · exact ⟨checked,tool,List.mem_cons_self,mcp,approval⟩
          · obtain ⟨passed,other,there,kind,origin⟩ := valid found later
            exact ⟨passed,other,List.mem_cons_of_mem _ there,kind,origin⟩
        · intro other member kind
          rcases List.mem_cons.mp member with rfl | later
          · exact ⟨spec,List.mem_cons_self,approval⟩
          · obtain ⟨found,there,origin⟩ := from_ other later kind
            exact ⟨found,List.mem_cons_of_mem _ there,origin⟩
      · rename_i plain
        obtain ⟨⟨more,left⟩,split,same⟩ := bind_ok.mp done
        cases same
        obtain ⟨valid,from_⟩ := ih split
        constructor
        · intro found member
          obtain ⟨passed,other,there,kind,origin⟩ := valid found member
          exact ⟨passed,other,List.mem_cons_of_mem _ there,kind,origin⟩
        · intro other member kind
          rcases List.mem_cons.mp member with rfl | later
          · exact absurd kind plain
          · exact from_ other later kind

end

-- The policies of the accepted tools raise for no tools of their servers exactly where
-- none hides malformed names from the probe.
theorem accepted_policies_resolve (complaint : Json → String) {tools other : List Json} {specs : List McpToolSpec}
    (accepted : splitMcpTools complaint tools = .ok (specs,other)) :
    (∀ spec ∈ specs, Resolves spec) ↔ ∀ tool ∈ tools, tool.get "type" = .str "mcp" → ¬Hides (tool.get "require_approval") := by
  obtain ⟨valid,from_⟩ := splitFrom_parts accepted
  constructor
  · intro resolves tool member kind
    obtain ⟨spec,there,origin⟩ := from_ tool member kind
    rw [← origin]
    exact (validated_resolves (valid spec there).1).mp (resolves spec there)
  · intro shown spec member
    obtain ⟨checked,tool,there,kind,origin⟩ := valid spec member
    apply (validated_resolves checked).mpr
    rw [origin]
    exact shown tool there kind

def mcpTool (approval : Json) : Json :=
  .obj [("type",.str "mcp"),("server_label",.str "s"),("server_url",.str "https://h/mcp"),("require_approval",approval)]

theorem accepted_policies_resolve_named : ∃ specs other,
    splitMcpTools (fun _ => "") [mcpTool (.obj [("never",.obj [("tool_names",.arr [.str "search"])])])] = .ok (specs,other) ∧
      specs.length = 1 ∧ ∀ spec ∈ specs, Resolves spec := by
  have run : ((splitMcpTools (fun _ => "") [mcpTool (.obj [("never",.obj [("tool_names",.arr [.str "search"])])])]).map fun split =>
      split.1.length) = .ok 1 := by decide +kernel
  cases accepted : splitMcpTools (fun _ => "") [mcpTool (.obj [("never",.obj [("tool_names",.arr [.str "search"])])])] with
  | error refused =>
      rw [accepted] at run
      cases run
  | ok split =>
      rw [accepted] at run
      obtain ⟨specs,other⟩ := split
      refine ⟨specs,other,rfl,Except.ok.inj run,(accepted_policies_resolve (fun _ => "") accepted).mpr ?_⟩
      intro tool member _ hides
      rw [List.mem_singleton.mp member] at hides
      obtain ⟨⟨names,read,empty⟩,_⟩ := hides
      have listed : some ["search"] = some names := read
      cases listed
      simp at empty

-- The probe's name is listed in `never`, so that `always` is first read for a tool.
theorem hidden_names_raise : ¬∀ (tools other : List Json) (specs : List McpToolSpec),
    splitMcpTools (fun _ => "") tools = .ok (specs,other) → ∀ spec ∈ specs, Resolves spec := by
  intro every
  let approval : Json := .obj [("never",.obj [("tool_names",.arr [.str ""])]),("always",.obj [("tool_names",.str "search")])]
  have run : ((splitMcpTools (fun _ => "") [mcpTool approval]).map fun split => split.1.map fun spec =>
      (requiresApproval spec ⟨"search",.obj [],none,none⟩).toOption) = .ok [none] := by decide +kernel
  cases accepted : splitMcpTools (fun _ => "") [mcpTool approval] with
  | error refused =>
      rw [accepted] at run
      cases run
  | ok split =>
      rw [accepted] at run
      obtain ⟨specs,other⟩ := split
      obtain ⟨spec,single,raised⟩ := List.map_eq_singleton_iff.mp (Except.ok.inj run)
      dsimp only at single
      obtain ⟨needed,asked⟩ := (every _ other specs accepted spec (by rw [single]; exact List.mem_cons_self)).2
        ⟨"search",.obj [],none,none⟩
      rw [asked] at raised
      cases raised

end Modelship.Mcp
