import Modelship.Foundation.Runs
import Modelship.Foundation.Url
import Modelship.OpenAI.Mcp.Spec

namespace Modelship.Mcp
open Foundation

def metadataHosts : List (List Char) := ["metadata.google.internal".toList,"metadata.goog".toList]

-- 169.254.0.0/16.
def inMetadataNetwork (address : Nat) : Bool := address &&& 0xffff0000 = 0xa9fe0000

-- The environment variables the policy reads, empty where they are not set.
structure EgressSettings where
  requireHttps : String
  allowedHosts : String

-- A url that is refused: by `urlsplit`, or with an error response.
inductive Refused where
  | invalid (message : String)
  | api (response : ErrorResponse)
  deriving DecidableEq

def egressError (message : String) : Refused := .api ⟨message,"invalid_request_error",400,some "tools"⟩

def isMetadataAddress (hostname : List Char) : Bool :=
  match ipAddress hostname with
  | some (.four address) => inMetadataNetwork address
  | _ => false

section
variable (unicode : Unicode) (settings : EgressSettings)

def lowered (text : String) : List Char := lower unicode (stripChars text.toList)

def validateServerUrl (url : String) : Except Refused Unit := do
  let parts ← (urlsplit unicode url).mapError .invalid
  if parts.scheme ≠ "http".toList ∧ parts.scheme ≠ "https".toList then
    throw (egressError ("mcp server_url must be http or https, got " ++ quoted (String.ofList parts.scheme) ++ "."))
  let requireHttps := ["1".toList,"true".toList,"yes".toList].contains (lowered unicode settings.requireHttps)
  if requireHttps = true ∧ parts.scheme ≠ "https".toList then
    throw (egressError "MSHIP_MCP_REQUIRE_HTTPS is set; mcp server_url must use https.")
  let host := (hostname unicode parts).getD []
  if host = [] then throw (egressError ("mcp server_url " ++ quoted url ++ " is missing a hostname."))
  let blocked :=
    egressError ("mcp server_url host " ++ quoted (String.ofList host) ++ " is a cloud metadata endpoint and is always blocked.")
  if lower unicode host ∈ metadataHosts then throw blocked
  if isMetadataAddress host = true then throw blocked
  let allowedHosts := stripChars settings.allowedHosts.toList
  let allowed := ((split ',' allowedHosts).map stripChars).filterMap fun name =>
    if name = [] then none else some (lower unicode name)
  if allowedHosts ≠ [] ∧ lower unicode host ∉ allowed then
    throw (egressError ("mcp server_url host " ++ quoted (String.ofList host) ++ " is not in MSHIP_MCP_ALLOWED_HOSTS."))

theorem accepted_host {url : String} (accepted : validateServerUrl unicode settings url = .ok ()) :
    ∃ parts host, urlsplit unicode url = .ok parts ∧ hostname unicode parts = some host ∧
      lower unicode host ∉ metadataHosts ∧ isMetadataAddress host = false := by
  obtain ⟨parts,read,rest⟩ := bind_ok.mp accepted
  have split : urlsplit unicode url = .ok parts := by
    cases done : urlsplit unicode url with
    | error message =>
        rw [done] at read
        cases read
    | ok found =>
        rw [done] at read
        cases read
        rfl
  obtain ⟨_,secure⟩ := throw_ok rest
  obtain ⟨_,present⟩ := throw_ok secure
  obtain ⟨full,named⟩ := throw_ok present
  obtain ⟨unnamed,addressed⟩ := throw_ok named
  obtain ⟨outside,_⟩ := throw_ok addressed
  cases host : hostname unicode parts with
  | none =>
      rw [host] at full
      exact absurd rfl full
  | some found =>
      rw [host] at unnamed outside
      exact ⟨parts,found,split,host,unnamed,Bool.eq_false_iff.mpr outside⟩

-- A host without the dot that may end it.
def undotted (host : List Char) : List Char := if host.getLast? = some '.' then host.dropLast else host

-- The IPv4 address a host spells, as the resolver reads IPv4 or as an IPv6 literal.
def Denotes (host : List Char) (address : Nat) : Prop :=
  inetAton host = some address ∨ ∃ six scope, ipv6 host = some (six,scope) ∧ ipv4Mapped six = some address

structure Harmless (host : List Char) : Prop where
  named : undotted (lower unicode host) ∉ metadataHosts
  addressed : ∀ address, Denotes host address → inMetadataNetwork address = false

-- The spellings of a metadata endpoint that the policy does not read as one.
inductive Disguised (host : List Char) : Prop where
  | dotted (name : List Char) (metadata : name ∈ metadataHosts) (spelled : lower unicode host = name ++ ['.'])
  | loose (address : Nat) (lax : ipv4 host = none) (spelled : inetAton host = some address)
    (metadata : inMetadataNetwork address = true)
  | mapped (six : Nat) (scope : Option (List Char)) (address : Nat) (literal : ipv6 host = some (six,scope))
    (spelled : ipv4Mapped six = some address) (metadata : inMetadataNetwork address = true)

theorem undotted_dot (host : List Char) : undotted (host ++ ['.']) = host := by
  unfold undotted
  rw [if_pos (by simp),List.dropLast_concat]

theorem undotted_cases (host : List Char) : host = undotted host ∨ host = undotted host ++ ['.'] := by
  unfold undotted
  split
  · rename_i ends
    exact .inr (List.dropLast_append_getLast? '.' ends).symm
  · exact .inl rfl

-- Of the hosts it lets through, those alone are a metadata endpoint.
theorem harmless_unless_disguised {host : List Char} (unnamed : lower unicode host ∉ metadataHosts)
    (outside : isMetadataAddress host = false) : Harmless unicode host ↔ ¬Disguised unicode host := by
  constructor
  · intro harmless disguised
    cases disguised with
    | dotted name metadata spelled =>
        apply harmless.named
        rw [spelled,undotted_dot]
        exact metadata
    | loose address lax spelled metadata =>
        exact absurd (harmless.addressed address (.inl spelled)) (by simp [metadata])
    | mapped six scope address literal spelled metadata =>
        exact absurd (harmless.addressed address (.inr ⟨six,scope,literal,spelled⟩)) (by simp [metadata])
  · intro plain
    constructor
    · intro metadata
      rcases undotted_cases (lower unicode host) with same | dotted
      · exact unnamed (same ▸ metadata)
      · exact plain (.dotted _ metadata dotted)
    · intro address denotes
      apply Bool.eq_false_iff.mpr
      intro metadata
      rcases denotes with spelled | ⟨six,scope,literal,spelled⟩
      · cases strict : ipv4 host with
        | none => exact plain (.loose address strict spelled metadata)
        | some found =>
            -- the C library reads a strict dotted quad as the policy does
            have same := ipv4_inetAton strict
            rw [spelled] at same
            cases same
            have checked : isMetadataAddress host = inMetadataNetwork address := by simp [isMetadataAddress,ipAddress,strict]
            rw [outside,metadata] at checked
            cases checked
      · exact plain (.mapped six scope address literal spelled metadata)

theorem accepted_hosts_harmless {url : String} (accepted : validateServerUrl unicode settings url = .ok ()) :
    ∃ parts host, urlsplit unicode url = .ok parts ∧ hostname unicode parts = some host ∧
      (Harmless unicode host ↔ ¬Disguised unicode host) := by
  obtain ⟨parts,host,split,read,unnamed,outside⟩ := accepted_host unicode settings accepted
  exact ⟨parts,host,split,read,harmless_unless_disguised unicode unnamed outside⟩

end

-- No table is asked of a url that is ASCII.
def ascii : Unicode := ⟨id,id⟩
def permissive : EgressSettings := ⟨"",""⟩

theorem accepted_hosts_harmless_example : ∃ parts host,
    urlsplit ascii "https://Example.com:443/mcp" = .ok parts ∧ hostname ascii parts = some host ∧
      (Harmless ascii host ↔ ¬Disguised ascii host) :=
  accepted_hosts_harmless ascii permissive (by decide +kernel)

theorem metadata_reached : ¬∀ unicode settings url parts host, validateServerUrl unicode settings url = .ok () →
    urlsplit unicode url = .ok parts → hostname unicode parts = some host → Harmless unicode host := by
  intro all
  have accepted : validateServerUrl ascii permissive "http://2852039166/latest/meta-data" = .ok () := by decide +kernel
  have harmless := all ascii permissive _ ⟨"http".toList,"2852039166".toList⟩ "2852039166".toList accepted rfl rfl
  have metadata := harmless.addressed 0xa9fea9fe (.inl (by decide +kernel))
  exact absurd metadata (by decide)

end Modelship.Mcp
