import Interpose.Definition.Parse
import Interpose.Service.Analysis
import Interpose.Wrapper.Text

/-!
# Generation

The way from a definition file to its generated module: the text is parsed, its blocks become
services, the services become classes. The first fault on that way is reported.
-/

namespace Interpose

/-- What a definition file holds once it is accepted. -/
structure ServiceFile where
  /-- Its imports. -/
  imports : List Import
  /-- Its services, one for each block. -/
  services : List Service
  deriving DecidableEq, Repr

namespace ServiceFile

/-- What the text of a definition file holds. -/
def ofText (text : String) : Except Fault ServiceFile := do
  let definition ← parse text
  let services ← definition.services
  return ⟨definition.imports, services⟩

/-- The text of the generated module, which imports a support package. -/
def moduleText (support : String) (file : ServiceFile) : String :=
  Interpose.moduleText support file.imports file.services

/-- The text of the generated module, which imports a support package with any code points in its
name. -/
def modulePoints (support : List Text.CodePoint) (file : ServiceFile) : List Text.CodePoint :=
  Interpose.modulePoints support file.imports file.services

end ServiceFile

/-- The module that a definition file stands for. -/
def generate (support text : String) : Except Fault String :=
  (ServiceFile.ofText text).map (ServiceFile.moduleText support)

end Interpose
