import Interpose.Source.Place

/-!
# Definitions of services

What a definition file says: imports, and service blocks with their annotations, bases and
methods. Every construct carries the span at which it stands. The body of a method is a type
parameter: bodies are read as fenced texts and cleaned afterwards. All other texts are strings
unless another type of texts is given.
-/

namespace Interpose

/-- The position that a construct reports. Either number may be unknown. -/
structure Span where
  /-- The line, counted from one. -/
  line : Option Int
  /-- The column, counted from one. -/
  column : Option Int
  deriving DecidableEq, Repr, Inhabited

namespace Span

/-- The span of a construct that stands nowhere. -/
def none : Span := ⟨.none, .none⟩

/-- The span of a construct that begins at a place. -/
def ofPlace (place : Source.Place) : Span := ⟨some place.line, some place.column⟩

end Span

/-- A type: a dotted path and the types in brackets after it. -/
structure TypeExpr (τ : Type := String) where
  /-- The dotted path. -/
  name : τ
  /-- The types in brackets; none when there are no brackets. -/
  args : List (TypeExpr τ)
  /-- Where the path begins. -/
  span : Span
  deriving Repr, Inhabited

/-- What follows the last dot of a dotted path. -/
def lastSegment (path : String) : String :=
  String.ofList (path.toList.reverse.takeWhile (· ≠ '.')).reverse

namespace TypeExpr

mutual

/-- A type as text, with its arguments in brackets and a comma and a blank between them. -/
def canonical : TypeExpr → String
  | ⟨name, [], _⟩ => name
  | ⟨name, arg :: args, _⟩ => name ++ "[" ++ canonical arg ++ canonicalRest args ++ "]"

/-- The arguments after the first one, each after its separator. -/
def canonicalRest : List TypeExpr → String
  | [] => ""
  | arg :: args => ", " ++ canonical arg ++ canonicalRest args

end

/-- The name of a type without the module in front of it. -/
def lastName (type : TypeExpr) : String := lastSegment type.name

section

variable {τ : Type} [DecidableEq τ]

mutual

/-- Whether two types are the same, spans included. -/
def beq : TypeExpr τ → TypeExpr τ → Bool
  | ⟨name, args, span⟩, other =>
    name == other.name && (span == other.span && beqArgs args other.args)

/-- Whether two lists of types are the same, spans included. -/
def beqArgs : List (TypeExpr τ) → List (TypeExpr τ) → Bool
  | [], others => others.isEmpty
  | arg :: args, others =>
    match others with
    | [] => false
    | other :: others => beq arg other && beqArgs args others

end

mutual

private theorem beq_refl : ∀ type : TypeExpr τ, beq type type = true
  | ⟨_, args, _⟩ => by simp [beq, beqArgs_refl args]

private theorem beqArgs_refl : ∀ args : List (TypeExpr τ), beqArgs args args = true
  | [] => rfl
  | arg :: args => by simp [beqArgs, beq_refl arg, beqArgs_refl args]

end

mutual

private theorem eq_of_beq : ∀ type other : TypeExpr τ, beq type other = true → type = other
  | ⟨name, args, span⟩, ⟨name', args', span'⟩, h => by
    simp only [beq, Bool.and_eq_true, beq_iff_eq] at h
    rw [h.1, h.2.1, eq_of_beqArgs args args' h.2.2]

private theorem eq_of_beqArgs : ∀ args others : List (TypeExpr τ),
    beqArgs args others = true → args = others
  | [], [], _ => rfl
  | [], other :: others, h => by simp [beqArgs] at h
  | arg :: args, [], h => by simp [beqArgs] at h
  | arg :: args, other :: others, h => by
    simp only [beqArgs, Bool.and_eq_true] at h
    rw [eq_of_beq arg other h.1, eq_of_beqArgs args others h.2]

end

instance decEq : DecidableEq (TypeExpr τ) := fun type other =>
  if h : beq type other = true then isTrue (eq_of_beq type other h)
  else isFalse fun e => h (e ▸ beq_refl type)

end

end TypeExpr

/-- The shape of an annotation's argument. -/
inductive ArgumentKind where
  /-- A dotted path. -/
  | path
  /-- A quoted text or a number. -/
  | literal
  /-- A dotted path with arguments of its own. -/
  | call
  deriving DecidableEq, Repr

/-- An argument of an annotation. -/
structure Argument (τ : Type := String) where
  /-- Its shape. -/
  kind : ArgumentKind
  /-- Its text. -/
  value : τ
  /-- Where it begins. -/
  span : Span
  deriving DecidableEq, Repr

/-- An annotation on a service block or a method. -/
structure Annotation (τ : Type := String) where
  /-- The dotted path after the sign. -/
  name : τ
  /-- The arguments in parentheses; `none` when there are no parentheses. -/
  arguments : Option (List (Argument τ))
  /-- Where its sign stands. -/
  span : Span
  deriving DecidableEq, Repr

/-- An import, as the line that the generated module takes over. -/
structure Import (τ : Type := String) where
  /-- The line. -/
  text : τ
  deriving DecidableEq, Repr

/-- A parameter of a method. -/
structure Param (τ : Type := String) where
  /-- Its name. -/
  name : τ
  /-- Its type, if it has one. -/
  type : Option (TypeExpr τ)
  /-- Where its name stands. -/
  span : Span
  deriving DecidableEq, Repr

/-- A parameter as text, with a colon and a blank before its type. -/
def Param.text (param : Param) : String :=
  match param.type with
  | none => param.name
  | some type => param.name ++ ": " ++ type.canonical

/-- A method of a service as it is written. -/
structure MethodDef (Body : Type) (τ : Type := String) where
  /-- Its name. -/
  name : τ
  /-- All its parameters, the receiver and the environment included. -/
  params : List (Param τ)
  /-- Its result type, if it has one. -/
  result : Option (TypeExpr τ)
  /-- Its body. -/
  body : Body
  /-- The annotations before it. -/
  annotations : List ( Annotation τ)
  /-- Where its name stands. -/
  span : Span
  deriving DecidableEq, Repr

/-- A service block as it is written. -/
structure ImplDef (Body : Type) (τ : Type := String) where
  /-- The name of the implementing class. -/
  name : τ
  /-- The classes that it extends. -/
  bases : List (TypeExpr τ)
  /-- Its methods. -/
  methods : List (MethodDef Body τ)
  /-- The annotations before it. -/
  annotations : List ( Annotation τ)
  /-- Where its first annotation stands, or its keyword when it has none. -/
  span : Span
  deriving DecidableEq, Repr

/-- A whole definition file. -/
structure Definition (Body : Type) where
  /-- Its imports in textual order. -/
  imports : List Import
  /-- Its service blocks in textual order. -/
  impls : List (ImplDef Body)
  deriving DecidableEq, Repr

end Interpose
