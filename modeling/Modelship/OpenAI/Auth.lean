import Modelship.OpenAI.ResponsesState

namespace Modelship.Auth
open Foundation ResponsesState

def unscopedIdentity : String := "unscoped"

-- The characters of `[A-Za-z0-9_.:-]`.
def identityChar (c : Char) : Bool :=
  'A' ≤ c && c ≤ 'Z' || 'a' ≤ c && c ≤ 'z' || '0' ≤ c && c ≤ '9' || c = '_' || c = '.' || c = ':' || c = '-'

-- `_SAFE_IDENTITY_RE`, whose `$` also matches before a newline that ends the value.
def safeIdentity (value : String) : Bool :=
  let text := value.toList
  let body := if text.getLast? = some '\n' then text.dropLast else text
  body.all identityChar && 1 ≤ body.length && body.length ≤ 128 && body != ['.'] && body != ['.','.']

-- `hashlib.sha256(value.encode()).hexdigest()`: 64 hexadecimal digits.
structure Digest where
  digest : String → String
  length : ∀ value, (digest value).toList.length = 64
  hex : ∀ value, ∀ c ∈ (digest value).toList, '0' ≤ c ∧ c ≤ '9' ∨ 'a' ≤ c ∧ c ≤ 'f'

section
variable (sha256 : Digest)

-- The key of a header value once it is stripped.
def identityOf (value : String) : String :=
  if value = "" then unscopedIdentity
  else if safeIdentity value then value
  else sha256.digest value

-- `resolve_identity`: the header named by the configuration, where it is on the request.
def resolveIdentity (trustedHeader : Option String) (headers : String → Option String) : String × String :=
  match trustedHeader with
  | none => (unscopedIdentity,"unscoped")
  | some name =>
    let value := strip ((headers name).getD "")
    (identityOf sha256 value,if value = "" then "unscoped" else "header")

-- Two stripped values that share a key: no value and the word for it, or a value that is
-- hashed and its hash used as a value.
def Clashes (one two : String) : Prop :=
  one = "" ∧ two = unscopedIdentity ∨ one ≠ "" ∧ safeIdentity one = false ∧ two = sha256.digest one

-- The stripped value of the trusted header, empty where the request has none.
def headerValue (name : String) (headers : String → Option String) : String := strip ((headers name).getD "")

-- A key of the response store in the scope of an identity.
def StateKey (identity path : String) : Prop :=
  ∃ id, path = key identity id ∨ path = logKey identity id ∨ path = streamKey identity id

theorem resolveIdentity_fst (name : String) (headers : String → Option String) :
    (resolveIdentity sha256 (some name) headers).1 = identityOf sha256 (headerValue name headers) := by
  unfold resolveIdentity headerValue
  dsimp only

theorem hex_identityChar {c : Char} (hex : '0' ≤ c ∧ c ≤ '9' ∨ 'a' ≤ c ∧ c ≤ 'f') : identityChar c = true := by
  unfold identityChar
  rcases hex with ⟨low,high⟩ | ⟨low,high⟩
  · simp [low,high]
  · have last : c ≤ 'z' := Char.le_trans high (by decide)
    simp [low,last]

theorem digest_not_newline (value : String) : (sha256.digest value).toList.getLast? ≠ some '\n' := by
  intro last
  have inside := List.mem_of_getLast? last
  have hex := sha256.hex value _ inside
  revert hex
  decide

-- A hash is used as it stands where a caller sends it.
theorem digest_safe (value : String) : safeIdentity (sha256.digest value) = true := by
  have all : ∀ c ∈ (sha256.digest value).toList, identityChar c = true := by
    intro c member
    exact hex_identityChar (sha256.hex value c member)
  have length := sha256.length value
  have notDot : (sha256.digest value).toList ≠ ['.'] := by intro equal; simp [equal] at length
  have notDots : (sha256.digest value).toList ≠ ['.','.'] := by intro equal; simp [equal] at length
  simp [safeIdentity,digest_not_newline,length,notDot,notDots]
  exact all

theorem digest_ne_word (value : String) {word : String} (short : word.toList.length ≠ 64) : sha256.digest value ≠ word := by
  intro equal
  apply short
  rw [← equal]
  exact sha256.length value

theorem identityOf_safe {value : String} (full : value ≠ "") (safe : safeIdentity value = true) :
    identityOf sha256 value = value := by simp [identityOf,full,safe]

theorem identityOf_hashed {value : String} (full : value ≠ "") (hashed : safeIdentity value = false) :
    identityOf sha256 value = sha256.digest value := by simp [identityOf,full,hashed]

theorem identityOf_digest (value : String) : identityOf sha256 (sha256.digest value) = sha256.digest value :=
  identityOf_safe sha256 (digest_ne_word sha256 value (by decide)) (digest_safe sha256 value)

-- The three encodings of a value.
theorem identityOf_cases (value : String) :
    (value = "" ∧ identityOf sha256 value = unscopedIdentity) ∨
    (value ≠ "" ∧ safeIdentity value = true ∧ identityOf sha256 value = value) ∨
    (value ≠ "" ∧ safeIdentity value = false ∧ identityOf sha256 value = sha256.digest value) := by
  by_cases empty : value = ""
  · subst empty
    exact .inl ⟨rfl,rfl⟩
  · cases safe : safeIdentity value with
    | true => exact .inr (.inl ⟨empty,rfl,identityOf_safe sha256 empty safe⟩)
    | false => exact .inr (.inr ⟨empty,rfl,identityOf_hashed sha256 empty safe⟩)

theorem clash_shares {one two : String} (clash : Clashes sha256 one two) : identityOf sha256 one = identityOf sha256 two := by
  rcases clash with ⟨rfl,rfl⟩ | ⟨full,hashed,rfl⟩
  · rfl
  · rw [identityOf_hashed sha256 full hashed,identityOf_digest]

-- Two values share a key only by a clash, the hash being free of collisions.
theorem shared_clash {one two : String} (differ : one ≠ two) (free : sha256.digest one = sha256.digest two → one = two)
    (shared : identityOf sha256 one = identityOf sha256 two) : Clashes sha256 one two ∨ Clashes sha256 two one := by
  rcases identityOf_cases sha256 one with ⟨empty,first⟩ | ⟨full,_,first⟩ | ⟨full,hashed,first⟩ <;>
    rcases identityOf_cases sha256 two with ⟨empty',second⟩ | ⟨full',_,second⟩ | ⟨full',hashed',second⟩ <;>
    rw [first,second] at shared
  · exact absurd (empty.trans empty'.symm) differ
  · exact .inl (.inl ⟨empty,shared.symm⟩)
  · exact absurd shared.symm (digest_ne_word sha256 two (by decide))
  · exact .inr (.inl ⟨empty',shared⟩)
  · exact absurd shared differ
  · exact .inr (.inr ⟨full',hashed',shared⟩)
  · exact absurd shared (digest_ne_word sha256 one (by decide))
  · exact .inl (.inr ⟨full,hashed,shared.symm⟩)
  · exact absurd (free shared) differ

theorem safe_no_slash {value : String} (safe : safeIdentity value = true) : '/' ∉ value.toList := by
  intro slash
  simp only [safeIdentity,Bool.and_eq_true,List.all_eq_true] at safe
  have chars := safe.1.1.1.1
  split at chars
  case isTrue newline =>
    -- The newline that `$` forgives is the last character, so the slash is before it.
    rw [← List.dropLast_append_getLast? '\n' newline,List.mem_append] at slash
    rcases slash with before | last
    · exact absurd (chars '/' before) (by decide)
    · exact absurd last (by decide)
  case isFalse => exact absurd (chars '/' slash) (by decide)

theorem identityOf_no_slash (value : String) : '/' ∉ (identityOf sha256 value).toList := by
  rcases identityOf_cases sha256 value with ⟨_,same⟩ | ⟨_,safe,same⟩ | ⟨_,_,same⟩ <;> rw [same]
  · decide
  · exact safe_no_slash safe
  · exact safe_no_slash (digest_safe sha256 value)

-- A path under a head tells the identity that follows the head.
theorem scope_told {head one two a b : String} (first : '/' ∉ one.toList) (second : '/' ∉ two.toList)
    (same : head ++ one ++ "/" ++ a = head ++ two ++ "/" ++ b) : one = two := by
  have chars := congrArg String.toList same
  simp only [String.toList_append,List.append_assoc,List.append_cancel_left_eq] at chars
  exact String.toList_inj.mp (separated first second chars)

theorem stateKey_told {one two path : String} (first : '/' ∉ one.toList) (second : '/' ∉ two.toList)
    (mine : StateKey one path) (theirs : StateKey two path) : one = two := by
  obtain ⟨a,rfl | rfl | rfl⟩ := mine <;> obtain ⟨b,same | same | same⟩ := theirs
  · exact scope_told first second same
  · exact absurd same (key_ne_logKey _ _ _ _)
  · exact absurd same (key_ne_streamKey _ _ _ _)
  · exact absurd same (logKey_ne_key _ _ _ _)
  · exact scope_told first second same
  · exact absurd same (logKey_ne_streamKey _ _ _ _)
  · exact absurd same (streamKey_ne_key _ _ _ _)
  · exact absurd same (streamKey_ne_logKey _ _ _ _)
  · exact scope_told first second same

-- Two callers with different header values are kept apart, in their identity and in every
-- key of the store, exactly where their values do not clash.
theorem identities_isolated (name : String) (one two : String → Option String)
    (differ : headerValue name one ≠ headerValue name two)
    (free : sha256.digest (headerValue name one) = sha256.digest (headerValue name two) →
      headerValue name one = headerValue name two) :
    ((resolveIdentity sha256 (some name) one).1 ≠ (resolveIdentity sha256 (some name) two).1 ∧
      ∀ path, StateKey (resolveIdentity sha256 (some name) one).1 path →
        ¬ StateKey (resolveIdentity sha256 (some name) two).1 path) ↔
    ¬ Clashes sha256 (headerValue name one) (headerValue name two) ∧
      ¬ Clashes sha256 (headerValue name two) (headerValue name one) := by
  rw [resolveIdentity_fst,resolveIdentity_fst]
  constructor
  · intro ⟨apart,_⟩
    exact ⟨fun clash => apart (clash_shares sha256 clash),fun clash => apart (clash_shares sha256 clash).symm⟩
  · intro ⟨forth,back⟩
    have apart : identityOf sha256 (headerValue name one) ≠ identityOf sha256 (headerValue name two) := by
      intro shared
      rcases shared_clash sha256 differ free shared with clash | clash
      · exact forth clash
      · exact back clash
    refine ⟨apart,?_⟩
    intro path mine theirs
    exact apart (stateKey_told (identityOf_no_slash sha256 _) (identityOf_no_slash sha256 _) mine theirs)

end

theorem all_hex {text : List Char} (checked : (text.all fun c => decide ('0' ≤ c ∧ c ≤ '9' ∨ 'a' ≤ c ∧ c ≤ 'f')) = true) :
    ∀ c ∈ text, '0' ≤ c ∧ c ≤ '9' ∨ 'a' ≤ c ∧ c ≤ 'f' :=
  fun c inside => of_decide_eq_true (List.all_eq_true.mp checked c inside)

-- The hash at the values below, and one word for every other value.
def fewHashes : Digest where
  digest value :=
    match value with
    | "" => "e3b0c44298fc1c149afbf4c8996fb92427ae41e4649b934ca495991b7852b855"
    | "a b" => "c8687a08aa5d6ed2044328fa6a697ab8e96dc34291e8c2034ae8c38e6fcc6d65"
    | "alice" => "2bd806c97f0e00af1a1fc3328fa763a9269723c8db8fac4f93af71db186d6e90"
    | "unscoped" => "ce10ec59566142dc24f9e3866c41f5c76ad3a0ae1b60f4b7368f3406c63528d9"
    | _ => "0000000000000000000000000000000000000000000000000000000000000000"
  length := by
    intro value
    split <;> decide +kernel
  hex := by
    intro value
    split <;> exact all_hex (by decide +kernel)

def sent (value : Option String) : String → Option String := fun name => if name = "x-user" then value else none

theorem identities_isolated_hashed :
    headerValue "x-user" (sent (some "a b")) ≠ headerValue "x-user" (sent (some "alice")) ∧
    (resolveIdentity fewHashes (some "x-user") (sent (some "a b"))).1 ≠
      (resolveIdentity fewHashes (some "x-user") (sent (some "alice"))).1 :=
  ⟨by decide +kernel,
    ((identities_isolated fewHashes "x-user" (sent (some "a b")) (sent (some "alice")) (by decide +kernel)
      (by decide +kernel)).mpr ⟨by unfold Clashes; decide +kernel,by unfold Clashes; decide +kernel⟩).1⟩

-- A caller that sends the word for no value shares every key with the callers that send nothing.
theorem identities_shared :
    ¬ ∀ (sha256 : Digest) (name : String) (one two : String → Option String),
      headerValue name one ≠ headerValue name two →
      (sha256.digest (headerValue name one) = sha256.digest (headerValue name two) →
        headerValue name one = headerValue name two) →
      (resolveIdentity sha256 (some name) one).1 ≠ (resolveIdentity sha256 (some name) two).1 := by
  intro claim
  exact claim fewHashes "x-user" (sent (some "unscoped")) (sent none) (by decide +kernel) (by decide +kernel) (by decide +kernel)

end Modelship.Auth
