import Interpose.Definition.Body
import Interpose.Definition.Names
import Interpose.Source.Context

/-!
# Definition files

`parse` turns the text of a definition file into a definition, in three phases: the text is read,
its bodies are cleaned, its names are checked. A phase reports a fault only when the phases before
it found none.
-/

namespace Interpose

open Source

/-- Read tokens one after the other, up to the first that is refused. The token before the tokens
that remain is remembered, since a text that ends too early is refused there. -/
def Reading.run (last : Place) : Reading → List Placed → Except Place (Reading × Place)
  | reading, [] => .ok (reading, last)
  | reading, ⟨token, place⟩ :: tokens =>
    match reading.step token place with
    | none => .error place
    | some reading => run place reading tokens

/-- The definition that tokens spell, or the place at which they stop spelling one. -/
def Definition.ofScan (scan : Scan) : Except Place (Definition Fenced) :=
  match Reading.start.run .start scan.tokens with
  | .error place => .error place
  | .ok (reading, last) =>
    match scan.stuck, reading.done? with
    | some place, _ => .error place
    | none, some definition => .ok definition
    | none, none => .error last

/-- Tokens spell a definition when all of them are read and it is complete then. -/
theorem Definition.ofScan_eq_ok_iff {scan : Scan} {definition : Definition Fenced} :
    ofScan scan = .ok definition ↔ scan.stuck = none ∧ ∃ reading last,
      Reading.start.run .start scan.tokens = .ok (reading, last) ∧
      reading.done? = some definition := by
  unfold ofScan
  cases Reading.start.run .start scan.tokens with
  | error place => simp
  | ok found =>
    obtain ⟨reading, last⟩ := found
    cases scan.stuck with
    | some place => simp
    | none => cases hdone : reading.done? <;> simp [hdone]

/-- Read the text of a definition file. -/
def readDefinition (text : List Char) : Except Fault (Definition Fenced) :=
  match Definition.ofScan (scan text) with
  | .ok definition => .ok definition
  | .error place => .error (.malformed (.ofPlace place) (context text place.offset))

/-- A text is read as the definition that its tokens spell. -/
theorem readDefinition_eq_ok_iff {text : List Char} {read : Definition Fenced} :
    readDefinition text = .ok read ↔ Definition.ofScan (scan text) = .ok read := by
  unfold readDefinition
  cases Definition.ofScan (scan text) with
  | ok definition => simp
  | error place => simp

/-- The definition that a text stands for. -/
def parse (text : String) : Except Fault (Definition String) := do
  let read ← readDefinition text.toList
  let definition ← read.clean
  checkNames definition.impls
  return definition

end Interpose
