import Interpose.Definition.Basic

/-!
# Definitions at other spans

`mapSpan` changes every span of a construct and nothing else. `erase` takes all spans away, so two
definitions with one erasure differ in their spans only.
-/

namespace Interpose

variable {Body : Type} (f g : Span → Span) (onBody inner : Body → Body)

namespace TypeExpr

mutual

/-- The type with every span changed. -/
def mapSpan (f : Span → Span) : TypeExpr → TypeExpr
  | ⟨name, args, span⟩ => ⟨name, mapSpans f args, f span⟩

/-- Types with every span changed. -/
def mapSpans (f : Span → Span) : List TypeExpr → List TypeExpr
  | [] => []
  | arg :: args => mapSpan f arg :: mapSpans f args

end

theorem mapSpans_eq_map (args : List TypeExpr) : mapSpans f args = args.map (mapSpan f) := by
  induction args with
  | nil => rfl
  | cons arg args ih => rw [mapSpans, ih, List.map_cons]

@[simp] theorem mapSpan_mk (name : String) (args : List TypeExpr) (span : Span) :
    mapSpan f ⟨name, args, span⟩ = ⟨name, args.map (mapSpan f), f span⟩ := by
  rw [mapSpan, mapSpans_eq_map]

mutual

/-- Changing the spans of a type twice changes them once. -/
@[simp] theorem mapSpan_mapSpan (f g : Span → Span) :
    ∀ type : TypeExpr, (type.mapSpan g).mapSpan f = type.mapSpan (f ∘ g)
  | ⟨name, args, span⟩ => by
    rw [mapSpan, mapSpan, mapSpan, mapSpans_mapSpans f g args, Function.comp_apply]

/-- Changing the spans of types twice changes them once. -/
theorem mapSpans_mapSpans (f g : Span → Span) :
    ∀ args : List TypeExpr, mapSpans f (mapSpans g args) = mapSpans (f ∘ g) args
  | [] => rfl
  | arg :: args => by
    rw [mapSpans, mapSpans, mapSpans, mapSpan_mapSpan f g arg, mapSpans_mapSpans f g args]

end

end TypeExpr

/-- The argument with its span changed. -/
def Argument.mapSpan (argument : Argument) : Argument := { argument with span := f argument.span }

/-- The annotation with every span changed. -/
def Annotation.mapSpan (note : Annotation) : Annotation :=
  ⟨note.name, note.arguments.map (·.map (·.mapSpan f)), f note.span⟩

/-- The parameter with every span changed. -/
def Param.mapSpan (param : Param) : Param :=
  ⟨param.name, param.type.map (·.mapSpan f), f param.span⟩

@[simp] theorem Argument.mapSpan_mapSpan (argument : Argument) :
    (argument.mapSpan g).mapSpan f = argument.mapSpan (f ∘ g) := rfl

@[simp] theorem Annotation.mapSpan_mapSpan (note : Annotation) :
    (note.mapSpan g).mapSpan f = note.mapSpan (f ∘ g) := by
  cases note with
  | mk name arguments span => cases arguments <;> simp [Function.comp_def, Annotation.mapSpan]

@[simp] theorem Param.mapSpan_mapSpan (param : Param) :
    (param.mapSpan g).mapSpan f = param.mapSpan (f ∘ g) := by
  cases param with
  | mk name type span => cases type <;> simp [Param.mapSpan]

/-- The method with every span changed; its body changes by a function of its own. -/
def MethodDef.mapSpan (method : MethodDef Body) : MethodDef Body where
  name := method.name
  params := method.params.map (·.mapSpan f)
  result := method.result.map (·.mapSpan f)
  body := onBody method.body
  annotations := method.annotations.map (·.mapSpan f)
  span := f method.span

@[simp] theorem MethodDef.mapSpan_mapSpan (method : MethodDef Body) :
    (method.mapSpan g inner).mapSpan f onBody = method.mapSpan (f ∘ g) (onBody ∘ inner) := by
  cases method with
  | mk name params result body annotations span =>
    cases result <;> simp [MethodDef.mapSpan, Function.comp_def]

/-- The block with every span changed; its bodies change by a function of their own. -/
def ImplDef.mapSpan (impl : ImplDef Body) : ImplDef Body where
  name := impl.name
  bases := impl.bases.map (·.mapSpan f)
  methods := impl.methods.map (·.mapSpan f onBody)
  annotations := impl.annotations.map (·.mapSpan f)
  span := f impl.span

@[simp] theorem ImplDef.mapSpan_mapSpan (impl : ImplDef Body) :
    (impl.mapSpan g inner).mapSpan f onBody = impl.mapSpan (f ∘ g) (onBody ∘ inner) := by
  simp [ImplDef.mapSpan, Function.comp_def]

/-- The definition with every span changed; its bodies change by a function of their own. -/
def Definition.mapSpan (definition : Definition Body) : Definition Body :=
  ⟨definition.imports, definition.impls.map (·.mapSpan f onBody)⟩

@[simp] theorem Definition.mapSpan_mapSpan (definition : Definition Body) :
    (definition.mapSpan g inner).mapSpan f onBody =
      definition.mapSpan (f ∘ g) (onBody ∘ inner) := by
  simp [Definition.mapSpan, Function.comp_def]

/-- The definition without spans. -/
def Definition.erase (definition : Definition String) : Definition String :=
  definition.mapSpan (fun _ => .none) id

/-- Definitions that agree once their spans are changed by one function agree without spans. -/
theorem Definition.erase_eq_of_mapSpan_eq {definition other : Definition String}
    (h : definition.mapSpan f id = other.mapSpan f id) : definition.erase = other.erase := by
  have he := congrArg (Definition.mapSpan (fun _ => Span.none) id) h
  rw [mapSpan_mapSpan, mapSpan_mapSpan] at he
  exact he

end Interpose
