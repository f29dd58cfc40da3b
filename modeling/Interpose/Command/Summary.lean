import Interpose.Command.Table
import Interpose.Json.Printer
import Interpose.Record.Service

/-!
# Summaries of services

What is shown of services: their names, their registries and the hooks of their methods in order,
as tables in a console or as JSON. The JSON also holds the record of each service.
-/

namespace Interpose.Command

/-- The form of the table of names. -/
def namesForm : TableForm := ⟨2, 2, [.left, .left]⟩

/-- The form of the table of a registry. -/
def registryForm : TableForm := ⟨0, 2, [.right, .left]⟩

/-- The form of the table of methods. -/
def methodsForm : TableForm := ⟨0, 2, [.left, .left, .left, .left]⟩

/-- The table of the names around a service. -/
def namesTable (console : Nat) (service : Service) : List String :=
  tableLines console namesForm
    [["Wrapper", wrapperName service.implementor],
     ["Interface", service.endpoint.interface],
     ["Server", service.endpoint.server]]

/-- The rows of a registry from an index on. -/
def registryRows : Nat → Registry → List (List String)
  | _, [] => []
  | index, ref :: refs => [toString index, ref.path] :: registryRows (index + 1) refs

/-- The table of a registry. -/
def registryTable (console : Nat) (registry : Registry) : List String :=
  tableLines console registryForm (["Index", "Middleware"] :: registryRows 0 registry)

/-- The hooks of a method, each with its index in the registry. -/
def hooksText (rpc : Rpc) : String :=
  match rpc.middlewares.zip rpc.indices with
  | [] => "-"
  | hooks => ", ".intercalate (hooks.map fun (ref, index) =>
      ref.path ++ " (" ++ toString index ++ ")")

/-- What the table of methods says about a method. -/
def methodCells (rpc : Rpc) : List String :=
  [rpc.name, rpc.request.canonical, rpc.response.canonical, hooksText rpc]

/-- The rows of the table of methods. -/
def methodRows (methods : List Rpc) : List (List String) :=
  ["Name", "Request", "Response", "Hooks"] :: methods.map methodCells

/-- The table of methods. -/
def methodsTable (console : Nat) (methods : List Rpc) : List String :=
  tableLines console methodsForm (methodRows methods)

/-- The lines of a service in a console. -/
def serviceLines (console : Nat) (service : Service) : List String :=
  consoleLines console service.implementor ++ namesTable console service ++ [""] ++
    consoleLines console "Registry" ++ registryTable console service.registry ++ [""] ++
    consoleLines console "Methods" ++ methodsTable console service.methods ++ [""]

/-- Services as tables. Nothing is shown in a console without room. -/
def summaryText (console : Nat) (services : List Service) : String :=
  textOfLines <|
    if console = 0 then []
    else if services.isEmpty then consoleLines console "No impl blocks found"
    else services.flatMap (serviceLines console)

/-- Paths as JSON. -/
def pathsJson (refs : List MiddlewareRef) : Json := .arr (refs.map fun ref => .str ref.path)

/-- A method as JSON. -/
def methodJson (rpc : Rpc) : Json :=
  .obj [("request", .str rpc.request.canonical), ("response", .str rpc.response.canonical),
    ("error", .str rpc.error.canonical), ("middlewares", pathsJson rpc.middlewares),
    ("indices", Record.ofList .int rpc.indices)]

/-- A service as JSON. -/
def serviceJson (service : Service) : Json :=
  .obj [("wrapper", .str (wrapperName service.implementor)),
    ("interface", .str service.endpoint.interface), ("server", .str service.endpoint.server),
    ("registry", pathsJson service.registry),
    ("methods", .obj (service.methods.map fun rpc => (rpc.name, methodJson rpc))),
    ("model", service.toRecord)]

/-- Services as JSON, under their names. -/
def summaryJson (services : List Service) : Json :=
  .obj [("services", .obj (services.map fun service => (service.implementor, serviceJson service)))]

end Interpose.Command
