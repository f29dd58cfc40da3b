import Interpose.Wrapper.Text

/-!
# The support package

Generated modules import a support package: the interface of middlewares, outcomes, and statuses
with the conversion of failures to them. Its files are fixed texts.
-/

namespace Interpose

/-- A file of the support package. -/
structure SupportFile where
  /-- Its name. -/
  name : String
  /-- Its text. -/
  text : String
  deriving DecidableEq, Repr

/-- The module that gathers the package's names. -/
def packageFile : SupportFile :=
  ⟨"__init__.py", textOfLines
  ["\"\"\"Runtime support for generated middleware wrappers.\"\"\"",
   "",
   "from .middleware import Middleware as Middleware",
   "from .result import Result as Result",
   "from .status import RpcStatus as RpcStatus",
   "from .status import StatusCode as StatusCode",
   "from .status import into_status as into_status"]⟩

/-- The module of the middleware interface. -/
def middlewareFile : SupportFile :=
  ⟨"middleware.py", textOfLines
  ["\"\"\"Middleware interface used by generated service wrappers.\"\"\"",
   "",
   "from abc import ABC, abstractmethod",
   "from typing import Any, ClassVar, Generic, TypeVar",
   "",
   "from .result import Result",
   "from .status import RpcStatus",
   "",
   "ContextT = TypeVar(\"ContextT\")",
   "",
   "",
   "class Middleware(ABC, Generic[ContextT]):",
   "    \"\"\"Base class for middlewares.",
   "",
   "    A wrapper calls \x60\x60before\x60\x60 with the inbound request; the returned context",
   "    is handed to the service method and then to \x60\x60after\x60\x60 together with the",
   "    call result. Raising \x60\x60Error\x60\x60 from \x60\x60before\x60\x60 rejects the call: the",
   "    service method does not run and no \x60\x60after\x60\x60 hook is called.",
   "",
   "    One instance serves every call of a wrapper, so any state it keeps must be",
   "    safe to share between concurrent calls.",
   "",
   "    Example:",
   "        class Auth(Middleware[User]):",
   "            Error = PermissionError",
   "",
   "            async def before(self, request):",
   "                return await self.users.lookup(request.token)",
   "",
   "            async def after(self, context, result):",
   "                pass",
   "    \"\"\"",
   "",
   "    Error: ClassVar[type[BaseException]] = Exception",
   "",
   "    @abstractmethod",
   "    async def before(self, request: Any) -> ContextT:",
   "        \"\"\"Called before the service method. Raise \x60\x60Error\x60\x60 to reject.\"\"\"",
   "",
   "    @abstractmethod",
   "    async def after(self, context: ContextT, result: Result[Any, RpcStatus]) -> None:",
   "        \"\"\"Called after the service method. Must not raise.\"\"\""]⟩

/-- The module of outcomes. -/
def resultFile : SupportFile :=
  ⟨"result.py", textOfLines
  ["\"\"\"Outcome of an rpc call as seen by middleware post-hooks.\"\"\"",
   "",
   "from dataclasses import dataclass",
   "from typing import Generic, TypeVar",
   "",
   "T = TypeVar(\"T\")",
   "E = TypeVar(\"E\", bound=BaseException)",
   "",
   "_MISSING = object()",
   "",
   "",
   "@dataclass(frozen=True, slots=True)",
   "class Result(Generic[T, E]):",
   "    \"\"\"Either a value or an error, never both.",
   "",
   "    Example:",
   "        ret = Result.ok(reply)",
   "        if ret.is_err:",
   "            log(ret.error)",
   "        return ret.unwrap()",
   "    \"\"\"",
   "",
   "    _value: object = _MISSING",
   "    _error: E | None = None",
   "",
   "    @classmethod",
   "    def ok(cls, value: T) -> \"Result[T, E]\":",
   "        return cls(_value=value)",
   "",
   "    @classmethod",
   "    def err(cls, error: E) -> \"Result[T, E]\":",
   "        return cls(_error=error)",
   "",
   "    @property",
   "    def is_ok(self) -> bool:",
   "        return self._error is None",
   "",
   "    @property",
   "    def is_err(self) -> bool:",
   "        return self._error is not None",
   "",
   "    @property",
   "    def value(self) -> T | None:",
   "        if self._error is not None:",
   "            return None",
   "        return self._value  # type: ignore[return-value]",
   "",
   "    @property",
   "    def error(self) -> E | None:",
   "        return self._error",
   "",
   "    def unwrap(self) -> T:",
   "        \"\"\"Return the value, or raise the error.\"\"\"",
   "        if self._error is not None:",
   "            raise self._error",
   "        return self._value  # type: ignore[return-value]",
   "",
   "    def unwrap_err(self) -> E:",
   "        if self._error is None:",
   "            raise ValueError(\"Called unwrap_err() on an ok result\")",
   "        return self._error"]⟩

/-- The module of statuses. -/
def statusFile : SupportFile :=
  ⟨"status.py", textOfLines
  ["\"\"\"Standard failure representation returned by generated services.\"\"\"",
   "",
   "from enum import IntEnum",
   "from typing import Any",
   "",
   "",
   "class StatusCode(IntEnum):",
   "    \"\"\"gRPC status codes.\"\"\"",
   "",
   "    OK = 0",
   "    CANCELLED = 1",
   "    UNKNOWN = 2",
   "    INVALID_ARGUMENT = 3",
   "    DEADLINE_EXCEEDED = 4",
   "    NOT_FOUND = 5",
   "    ALREADY_EXISTS = 6",
   "    PERMISSION_DENIED = 7",
   "    RESOURCE_EXHAUSTED = 8",
   "    FAILED_PRECONDITION = 9",
   "    ABORTED = 10",
   "    OUT_OF_RANGE = 11",
   "    UNIMPLEMENTED = 12",
   "    INTERNAL = 13",
   "    UNAVAILABLE = 14",
   "    DATA_LOSS = 15",
   "    UNAUTHENTICATED = 16",
   "",
   "",
   "class RpcStatus(Exception):",
   "    \"\"\"An rpc failure, carried as an exception.\"\"\"",
   "",
   "    def __init__(self, code: StatusCode, message: str = \"\", details: Any = None):",
   "        super().__init__(message)",
   "        self.code = code",
   "        self.message = message",
   "        self.details = details",
   "",
   "    def __repr__(self) -> str:",
   "        return f\"RpcStatus(\x7bself.code.name\x7d, \x7bself.message!r\x7d)\"",
   "",
   "    def __eq__(self, other: object) -> bool:",
   "        if not isinstance(other, RpcStatus):",
   "            return NotImplemented",
   "        return (self.code, self.message, self.details) == (other.code, other.message, other.details)",
   "",
   "    def __hash__(self) -> int:",
   "        return hash((self.code, self.message))",
   "",
   "",
   "def into_status(error: BaseException) -> RpcStatus:",
   "    \"\"\"Convert an error into an RpcStatus.",
   "",
   "    Errors can take part by defining \x60\x60to_status()\x60\x60.",
   "    \"\"\"",
   "    if isinstance(error, RpcStatus):",
   "        return error",
   "",
   "    to_status = getattr(error, \"to_status\", None)",
   "    if callable(to_status):",
   "        status = to_status()",
   "        if not isinstance(status, RpcStatus):",
   "            raise TypeError(f\"\x7btype(error).__name__\x7d.to_status() must return an RpcStatus\")",
   "        return status",
   "",
   "    return RpcStatus(StatusCode.UNKNOWN, str(error))"]⟩

/-- The files of the support package. -/
def supportFiles : List SupportFile := [packageFile, middlewareFile, resultFile, statusFile]

end Interpose
