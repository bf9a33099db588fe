import Modelship.Foundation.Text

namespace Modelship.Deploy
open Foundation

def fingerprintLen : Nat := 10

def isHex (c : Char) : Bool := '0' ≤ c && c ≤ '9' || 'a' ≤ c && c ≤ 'f'

-- What `fingerprint` returns: the first characters of a hex digest.
def IsFingerprint (text : List Char) : Prop := text.length = fingerprintLen ∧ text.all isHex

def deploymentName (gateway name fingerprint : String) : String := gateway ++ "." ++ name ++ "-" ++ fingerprint

theorem deploymentName_model {gateway name other print last : String} (printed : IsFingerprint print.toList)
    (ended : IsFingerprint last.toList) (same : deploymentName gateway name print = deploymentName gateway other last) :
    name = other := by
  have chars := congrArg String.toList same
  simp only [deploymentName,String.toList_append,List.append_assoc] at chars
  have rest := List.append_cancel_left (List.append_cancel_left chars)
  have suffix : ("-".toList ++ print.toList).length = ("-".toList ++ last.toList).length := by
    rw [List.length_append,List.length_append,printed.1,ended.1]
  exact String.toList_inj.mp (List.append_inj' rest suffix).1

-- `([^.]+)\.(.+)-[0-9a-f]{10}`, matched in full. The first group ends at the first
-- dot, the last eleven characters are the suffix, and `.` matches no newline.
def parseChars (app : List Char) : Option (List Char × List Char) :=
  let gateway := app.takeWhile (· ≠ '.')
  let rest := (app.dropWhile (· ≠ '.')).drop 1
  let name := rest.take (rest.length - (fingerprintLen + 1))
  let suffix := rest.drop (rest.length - (fingerprintLen + 1))
  if gateway ≠ [] ∧ name ≠ [] ∧ '\n' ∉ name ∧ suffix.length = fingerprintLen + 1 ∧ suffix.head? = some '-' ∧
    suffix.tail.all isHex then some (gateway,name)
  else none

def parseDeploymentName (app : String) : Option (String × String) :=
  (parseChars app.toList).map fun parsed => (String.ofList parsed.1,String.ofList parsed.2)

-- The regex finds the model of a deployment name where it has a character and no newline.
theorem parseChars_deployment {gateway name fingerprint : List Char} (named : gateway ≠ []) (undotted : '.' ∉ gateway)
    (print : IsFingerprint fingerprint) :
    parseChars (gateway ++ '.' :: (name ++ '-' :: fingerprint)) =
      if name ≠ [] ∧ '\n' ∉ name then some (gateway,name) else none := by
  obtain ⟨length,hex⟩ := print
  have cut : (name ++ '-' :: fingerprint).length - (fingerprintLen + 1) = name.length := by
    simp [length]
  unfold parseChars
  rw [(takeWhile_before undotted).1,(takeWhile_before undotted).2]
  simp only [List.drop_succ_cons,List.drop_zero,cut,List.take_left,List.drop_left]
  refine if_congr ?_ rfl rfl
  constructor
  · intro ⟨_,model,line,_⟩
    exact ⟨model,line⟩
  · intro ⟨model,line⟩
    exact ⟨named,model,line,by simp [length],rfl,hex⟩

theorem deploymentName_toList (gateway name fingerprint : String) : (deploymentName gateway name fingerprint).toList =
    gateway.toList ++ '.' :: (name.toList ++ '-' :: fingerprint.toList) := by
  simp [deploymentName]

theorem parse_deployment {gateway name fingerprint : String} (named : gateway ≠ "") (undotted : '.' ∉ gateway.toList)
    (print : IsFingerprint fingerprint.toList) : parseDeploymentName (deploymentName gateway name fingerprint) =
      if name ≠ "" ∧ '\n' ∉ name.toList then some (gateway,name) else none := by
  unfold parseDeploymentName
  rw [deploymentName_toList,parseChars_deployment (by simpa using named) undotted print]
  by_cases read : name ≠ "" ∧ '\n' ∉ name.toList
  · have chars : name.toList ≠ [] ∧ '\n' ∉ name.toList := ⟨by simpa using read.1,read.2⟩
    rw [if_pos read,if_pos chars]
    simp
  · have chars : ¬(name.toList ≠ [] ∧ '\n' ∉ name.toList) := fun both => read ⟨by simpa using both.1,both.2⟩
    rw [if_neg read,if_neg chars]
    rfl

-- A deployment name tells its gateway and its model.
theorem parse_deploymentName {gateway name fingerprint : String} (named : gateway ≠ "") (undotted : '.' ∉ gateway.toList)
    (model : name ≠ "") (line : '\n' ∉ name.toList) (print : IsFingerprint fingerprint.toList) :
    parseDeploymentName (deploymentName gateway name fingerprint) = some (gateway,name) := by
  rw [parse_deployment named undotted print,if_pos ⟨model,line⟩]

-- Whether an app is named as a model of the gateway, whatever the model is called.
def isModelApp (gateway app : String) : Bool :=
  let rest := app.toList.drop (gateway.toList.length + 1)
  let suffix := rest.drop (rest.length - (fingerprintLen + 1))
  decide (app.toList.take (gateway.toList.length + 1) = gateway.toList ++ ['.'] ∧ suffix.length = fingerprintLen + 1 ∧
    suffix.head? = some '-') && suffix.tail.all isHex

theorem isModelApp_deploymentName (gateway name : String) {fingerprint : String} (print : IsFingerprint fingerprint.toList) :
    isModelApp gateway (deploymentName gateway name fingerprint) = true := by
  obtain ⟨length,hex⟩ := print
  have chars : (deploymentName gateway name fingerprint).toList =
      (gateway.toList ++ ['.']) ++ (name.toList ++ '-' :: fingerprint.toList) := by
    simp [deploymentName]
  have head : gateway.toList.length + 1 = (gateway.toList ++ ['.']).length := by simp
  have cut : (name.toList ++ '-' :: fingerprint.toList).length - (fingerprintLen + 1) = name.toList.length := by
    simp [length]
  unfold isModelApp
  dsimp only
  rw [chars,head,List.take_left,List.drop_left,cut,List.drop_left]
  simp [length,hex]

end Modelship.Deploy
