import Interpose.Text.Margin
import Interpose.Text.CodePoint
import Interpose.Wrapper.Basic

/-!
# The text of generated modules

A generated module holds the imports of its definition, two imports of the support package, and
the two classes of each service. Its text is a list of lines, each of which ends in a newline.
-/

namespace Interpose

/-- Lines as a text; each ends in a newline. -/
def textOfLines (lines : List String) : String := String.join (lines.map (· ++ "\n"))

/-- A number of contexts as a tuple of their variables; a single one is followed by a comma. -/
def contextTuple : Nat → String
  | 1 => "(" ++ contextName 0 ++ ",)"
  | count => "(" ++ ", ".intercalate ((List.range count).map contextName) ++ ")"

/-- The lines of a statement. -/
def Statement.lines : Statement → List String
  | .before position field =>
    ["        try:",
     "            " ++ contextName position ++ " = await self." ++ fieldName field ++
       ".before(request)",
     "        except self." ++ fieldName field ++ ".Error as exc:",
     "            raise _into_status(exc) from exc"]
  | .gather count => ["        envs = " ++ contextTuple count]
  | .call method error =>
    ["        try:",
     "            ret = _Result.ok(await self." ++ implementationField ++ "." ++
       bodyName method ++ "(envs, request))",
     "        except " ++ error ++ " as exc:",
     "            ret = _Result.err(_into_status(exc))"]
  | .after position field =>
    ["        await self." ++ fieldName field ++ ".after(" ++ contextName position ++ ", ret)"]
  | .answer => ["        return ret.unwrap()"]

/-- The lines of a wrapper's method, after an empty one. -/
def WrapperMethod.lines (method : WrapperMethod) : List String :=
  ["", "    async def " ++ method.name ++ "(self, request: " ++ method.request ++ ") -> " ++
    method.response ++ ":"] ++ method.statements.flatMap Statement.lines

/-- The parameter lines of middlewares, from an index on. -/
def parameterLines : Nat → List String → List String
  | _, [] => []
  | index, type :: types =>
    ("        " ++ fieldName index ++ ": " ++ type ++ ",") :: parameterLines (index + 1) types

/-- The line that keeps a parameter in the field of its name. -/
def keepingLine (name : String) : String := "        self." ++ name ++ " = " ++ name

/-- The lines of a wrapper, after two empty ones. -/
def Wrapper.lines (wrapper : Wrapper) : List String :=
  ["", "", "class " ++ wrapper.name ++ "(" ++ wrapper.interface ++ "):",
   "    \"\"\"Runs middleware hooks around " ++ wrapper.implementor ++ ".\"\"\"",
   "",
   "    def __init__(",
   "        self,",
   "        " ++ implementationField ++ ": " ++ wrapper.implementor ++ ","] ++
  parameterLines 0 wrapper.fields ++
  ["    ) -> None:"] ++
  wrapper.kept.map keepingLine ++
  wrapper.methods.flatMap WrapperMethod.lines

/-- The margin of a body. -/
def bodyMargin : List Char := List.replicate 8 ' '

/-- A body under its margin; a blank body does nothing. -/
def indentedBody (text : String) : String :=
  if Text.isBlankLine text.toList then String.ofList bodyMargin ++ "pass"
  else String.ofList (Text.addMargin bodyMargin text.toList)

/-- The lines of a body, after an empty one. -/
def HeldBody.lines (body : HeldBody) : List String :=
  ["", "    async def " ++ bodyName body.method ++ "(" ++ body.params ++ ") -> " ++
    body.response ++ ":", indentedBody body.text]

/-- The classes that an implementing class extends, in parentheses if there are any. -/
def basesText (bases : List String) : String :=
  if bases.isEmpty then "" else "(" ++ ", ".intercalate bases ++ ")"

/-- The lines of an implementing class, after two empty ones. -/
def Implementor.lines (implementor : Implementor) : List String :=
  ["", "", "class " ++ implementor.name ++ basesText implementor.bases ++ ":",
   "    def to_service_middleware(",
   "        self,"] ++
  parameterLines 0 implementor.fields ++
  ["    ):",
   "        \"\"\"Wrap this service with its middlewares and build the server object.\"\"\"",
   "        return " ++ implementor.server ++ "(",
   "            " ++ implementor.wrapper ++ "(" ++
     ", ".intercalate implementor.passed ++ ")",
   "        )"] ++
  implementor.bodies.flatMap HeldBody.lines

/-- The lines of a service's two classes. -/
def Service.lines (service : Service) : List String :=
  service.wrapper.lines ++ service.implementorClass.lines

/-- The lines of a module before it imports the support package. -/
def openingLines (imports : List Import) : List String :=
  ["\"\"\"Generated middleware wrappers.\"\"\"", "", "from __future__ import annotations", ""] ++
  imports.map (·.text) ++ (if imports.isEmpty then [] else [""])

/-- The lines of a module before its classes. -/
def headerLines (support : String) (imports : List Import) : List String :=
  openingLines imports ++
  ["from " ++ support ++ " import Result as _Result",
   "from " ++ support ++ " import into_status as _into_status"]

/-- The text of the module with some imports and services. -/
def moduleText (support : String) (imports : List Import) (services : List Service) : String :=
  textOfLines (headerLines support imports ++ services.flatMap Service.lines)

/-- The text of a module that imports a support package with any code points in its name. -/
def modulePoints (support : List Text.CodePoint) (imports : List Import) (services : List Service) :
    List Text.CodePoint :=
  Text.points (textOfLines (openingLines imports) ++ "from ") ++ support ++
    Text.points " import Result as _Result\nfrom " ++ support ++
    Text.points (" import into_status as _into_status\n" ++
      textOfLines (services.flatMap Service.lines))

/-- The support package that a module imports unless told otherwise. -/
def defaultSupport : String := "hookwire_runtime"

end Interpose
