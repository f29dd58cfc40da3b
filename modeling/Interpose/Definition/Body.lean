import Interpose.Definition.Reading
import Interpose.Fault
import Interpose.Text.Margin

/-!
# Bodies

A fenced body is cleaned before it is kept: blank lines at both ends go, blanks at the ends of
lines go, and so does the margin that its lines share. A body either stands on the line of its
opening fence or begins on the line below; text in both places is a fault.
-/

namespace Interpose

open Text

/-- The lines from the first that is not blank to the last. -/
def trimBlankLines (lines : List (List Char)) : List (List Char) :=
  ((lines.dropWhile isBlankLine).reverse.dropWhile isBlankLine).reverse

/-- The lines that are kept of a body. -/
def keptLines (lines : List (List Char)) : List (List Char) :=
  removeMargin ((trimBlankLines lines).map trimEnd)

/-- Whether the first of several lines holds text and a later one does too. -/
def textOnFence : List (List Char) → Bool
  | [] => false
  | first :: rest => !isBlankLine first && rest.any fun line => !isBlankLine line

/-- The text that is kept of a fenced body. -/
def Fenced.clean (body : Fenced) : Except Fault String :=
  let lines := splitLines body.text.toList
  if textOnFence lines then
    .error (.textOnFence body.span (String.ofList (trim (lines.headD []))))
  else .ok (String.ofList (joinLines (keptLines lines)))

/-- A method with its body cleaned. -/
def MethodDef.clean (method : MethodDef Fenced) : Except Fault (MethodDef String) :=
  method.body.clean.map fun body => { method with body }

/-- A service block with the bodies of its methods cleaned. -/
def ImplDef.clean (impl : ImplDef Fenced) : Except Fault (ImplDef String) :=
  (impl.methods.mapM MethodDef.clean).map fun methods => { impl with methods }

/-- A definition with all its bodies cleaned. The first faulty body in the text is reported. -/
def Definition.clean (definition : Definition Fenced) : Except Fault (Definition String) :=
  (definition.impls.mapM ImplDef.clean).map fun impls => { definition with impls }

end Interpose
