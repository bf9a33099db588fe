import Modelship.Foundation.Json

namespace Modelship.Deploy
open Foundation

-- A gateway's model set as sent, and its number.
structure Version where
  number : Int
  models : List Json
  deriving DecidableEq

-- The stored dict as a version; anything else reads as none. `commit_version` alone
-- writes it, with an integer number.
def version? (data : Json) : Option Version :=
  match data.find? "models" with
  | some (.arr models) =>
    match data.find? "version" with
    | some (.num number) => some ⟨number,models⟩
    | _ => some ⟨0,models⟩
  | _ => none

def readVersions (data : Json) : Option Version × Option Version :=
  match version? data with
  | none => (none,none)
  | some committed => (some committed,version? (data.get "previous"))

-- What `commit_version` writes over `data`, and the version it returns.
def commitVersion (data : Json) (models : List Json) : Json × Version :=
  match (readVersions data).1 with
  | none => (.obj [("version",.num 1),("models",.arr models)],⟨1,models⟩)
  | some committed =>
    (.obj [("version",.num (committed.number + 1)),("models",.arr models),
      ("previous",.obj [("version",.num committed.number),("models",.arr committed.models)])],
      ⟨committed.number + 1,models⟩)

def committedModels (data : Json) : Option (List Json) := (readVersions data).1.map Version.models

-- The next version has the next number and the old one as its previous.
theorem commitVersion_reads (data : Json) (models : List Json) :
    (commitVersion data models).2 = ⟨((readVersions data).1.map Version.number).getD 0 + 1,models⟩ ∧
    readVersions (commitVersion data models).1 = (some (commitVersion data models).2,(readVersions data).1) := by
  unfold commitVersion
  cases (readVersions data).1 with
  | none => exact ⟨rfl,rfl⟩
  | some committed => exact ⟨rfl,rfl⟩

theorem commitVersion_models (data : Json) (models : List Json) :
    committedModels (commitVersion data models).1 = some models := by
  obtain ⟨new,read⟩ := commitVersion_reads data models
  simp [committedModels,read,new]

end Modelship.Deploy
