import Modelship.Foundation.Address

namespace Foundation

-- What Python's tables tell of a text that is not ASCII.
structure Unicode where
  lower : List Char → List Char
  nfkc : List Char → List Char

def isAscii (text : List Char) : Bool := text.all (·.toNat < 128)

section
variable (unicode : Unicode)

def lower (text : List Char) : List Char := if isAscii text then text.map Char.toLower else unicode.lower text

-- The parts of a `SplitResult` that a reader of the host and the scheme looks at.
structure SplitResult where
  scheme : List Char
  netloc : List Char

def splitScheme (url : List Char) : List Char × List Char :=
  let before := url.takeWhile (· ≠ ':')
  match before,url.dropWhile (· ≠ ':') with
  | first :: _,_ :: rest =>
    if first.isAlpha && before.all (fun c => c.isAlphanum || c = '+' || c = '-' || c = '.') then
      (before.map Char.toLower,rest)
    else ([],url)
  | _,_ => ([],url)

def splitNetloc : List Char → List Char
  | '/' :: '/' :: rest => rest.takeWhile fun c => c ≠ '/' && c ≠ '?' && c ≠ '#'
  | _ => []

-- What follows the last separator: the whole, where there is none.
def afterLast (separator : Char) (text : List Char) : List Char := (text.reverse.takeWhile (· ≠ separator)).reverse

-- What follows the first `[` of a host, up to `]`, or a host up to its port.
def hostPart (hostinfo : List Char) : List Char :=
  match hostinfo.dropWhile (· ≠ '[') with
  | [] => hostinfo.takeWhile (· ≠ ':')
  | _ :: bracketed => bracketed.takeWhile (· ≠ ']')

def checkBracketedHost (hostname : List Char) : Except String Unit :=
  match hostname with
  | 'v' :: rest =>
    let digits := rest.takeWhile fun c => (digit? 16 c).isSome
    match rest.drop digits.length with
    | '.' :: _ :: _ => if digits = [] then .error "IPvFuture address is invalid" else .ok ()
    | _ => .error "IPvFuture address is invalid"
  | _ =>
    match ipAddress hostname with
    | none => .error (quoted (String.ofList hostname) ++ " does not appear to be an IPv4 or IPv6 address")
    | some (.four _) => .error "An IPv4 address cannot be in brackets"
    | some (.six _ _) => .ok ()

def checkBracketedNetloc (netloc : List Char) : Except String Unit := do
  let hostinfo := afterLast '@' netloc
  match hostinfo.dropWhile (· ≠ '[') with
  | [] => pure ()
  | _ :: bracketed =>
    unless hostinfo.takeWhile (· ≠ '[') = [] do throw "Invalid IPv6 URL"
    let port := (bracketed.dropWhile (· ≠ ']')).drop 1
    unless port = [] ∨ port.head? = some ':' do throw "Invalid IPv6 URL"
  checkBracketedHost (hostPart hostinfo)

def checkNetloc (netloc : List Char) : Except String Unit :=
  if isAscii netloc then .ok () else
  let kept := netloc.filter fun c => c ≠ '@' && c ≠ ':' && c ≠ '#' && c ≠ '?'
  let normalized := unicode.nfkc kept
  if kept = normalized then .ok () else
  if ['/','?','#','@',':'].any normalized.contains then
    .error ("netloc '" ++ String.ofList netloc ++ "' contains invalid characters under NFKC normalization")
  else .ok ()

def urlsplit (url : String) : Except String SplitResult := do
  let url := (url.toList.dropWhile (·.toNat ≤ 32)).filter fun c => c ≠ '\t' && c ≠ '\r' && c ≠ '\n'
  let (scheme,rest) := splitScheme url
  let netloc := splitNetloc rest
  unless '[' ∈ netloc ↔ ']' ∈ netloc do throw "Invalid IPv6 URL"
  if '[' ∈ netloc then checkBracketedNetloc netloc
  checkNetloc unicode netloc
  return ⟨scheme,netloc⟩

-- A zone after `%` keeps its case.
def hostname (parts : SplitResult) : Option (List Char) :=
  let host := hostPart (afterLast '@' parts.netloc)
  if host = [] then none else some (lower unicode (host.takeWhile (· ≠ '%')) ++ host.dropWhile (· ≠ '%'))

end

end Foundation
