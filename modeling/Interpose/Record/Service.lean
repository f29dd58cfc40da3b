import Interpose.Record.Definition
import Interpose.Service.Basic

/-!
# Services as records

A service's record holds the records of all its parts, so the service can be had back from it.
-/

namespace Interpose

open Record

variable {τ : Type}

namespace MiddlewareRef

/-- A middleware as a record. -/
def toRecord (ref : MiddlewareRef τ) : Json τ :=
  .obj [("path", .str ref.path), ("span", ref.span.toRecord)]

/-- The middleware of a record. -/
def ofRecord? : Json τ → Option (MiddlewareRef τ)
  | .obj [("path", .str path), ("span", span)] => do return ⟨path, ← Span.ofRecord? span⟩
  | _ => none

end MiddlewareRef

namespace Rpc

/-- A method as a record. -/
def toRecord (rpc : Rpc τ) : Json τ :=
  .obj [("name", .str rpc.name), ("request_type", rpc.request.toRecord),
    ("response_type", rpc.response.toRecord), ("error_type", rpc.error.toRecord),
    ("local_middlewares", Record.ofList MiddlewareRef.toRecord rpc.middlewares),
    ("global_indices", Record.ofList .int rpc.indices),
    ("params", Record.ofList Param.toRecord rpc.params), ("body", .str rpc.body),
    ("span", rpc.span.toRecord)]

/-- The method of a record. -/
def ofRecord? : Json τ → Option (Rpc τ)
  | .obj [("name", .str name), ("request_type", request), ("response_type", response),
      ("error_type", error), ("local_middlewares", middlewares), ("global_indices", indices),
      ("params", params), ("body", .str body), ("span", span)] => do
    return ⟨name, ← TypeExpr.ofRecord? request, ← TypeExpr.ofRecord? response,
      ← TypeExpr.ofRecord? error, ← list? MiddlewareRef.ofRecord? middlewares,
      ← list? number? indices, ← list? Param.ofRecord? params, body, ← Span.ofRecord? span⟩
  | _ => none

end Rpc

namespace Endpoint

/-- The names around a service as a record. -/
def toRecord (endpoint : Endpoint τ) : Json τ :=
  .obj [("service_interface_name", .str endpoint.interface),
    ("server_wrapper_name", .str endpoint.server)]

/-- The names of a record. -/
def ofRecord? : Json τ → Option (Endpoint τ)
  | .obj [("service_interface_name", .str interface), ("server_wrapper_name", .str server)] =>
    some ⟨interface, server⟩
  | _ => none

end Endpoint

namespace Service

/-- A service as a record. -/
def toRecord (service : Service τ) : Json τ :=
  .obj [("implementor_type", .str service.implementor),
    ("bases", Record.ofList TypeExpr.toRecord service.bases),
    ("methods", Record.ofList Rpc.toRecord service.methods),
    ("registry", Record.ofList MiddlewareRef.toRecord service.registry),
    ("args", service.endpoint.toRecord)]

/-- The service of a record. -/
def ofRecord? : Json τ → Option (Service τ)
  | .obj [("implementor_type", .str implementor), ("bases", bases), ("methods", methods),
      ("registry", registry), ("args", args)] => do
    return ⟨implementor, ← list? TypeExpr.ofRecord? bases, ← list? Rpc.ofRecord? methods,
      ← list? MiddlewareRef.ofRecord? registry, ← Endpoint.ofRecord? args⟩
  | _ => none

end Service

end Interpose
