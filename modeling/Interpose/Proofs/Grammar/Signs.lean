import Interpose.Proofs.Grammar.Constructs
import Mathlib.Data.List.Flatten

/-!
# What a text reads at a span

Every construct of a definition reports a span, and says what the text reads there: the sign of an
annotation, the first name of a path, a name or a literal. In the order of the text a method is
pointed at after its annotations and a block before everything in it, so constructs of one kind are
pointed at in the order in which they begin.
-/

namespace Interpose

open Grammar

variable {Body : Type}

/-- A span and what the text reads there. -/
structure Sign where
  /-- The span. -/
  span : Span
  /-- What the text reads there. -/
  word : List Char
  deriving DecidableEq, Repr

/-! ## Signs of definitions -/

/-- The first name of a path: a point or a parenthesis ends it. -/
def firstSegment (path : List Char) : List Char := path.takeWhile fun c => c ≠ '.' && c ≠ '('

mutual

/-- A type is pointed at by the first name of its path; then come the types in its brackets. -/
def TypeExpr.signs : TypeExpr → List Sign
  | ⟨name, args, span⟩ => ⟨span, firstSegment name.toList⟩ :: allSigns args

/-- The signs of the types of a list. -/
def TypeExpr.allSigns : List TypeExpr → List Sign
  | [] => []
  | type :: types => type.signs ++ allSigns types

end

/-- What the text reads where an argument stands: a whole literal, or the first name of a path. -/
def Argument.word (argument : Argument) : List Char :=
  match argument.kind with
  | .literal => argument.value.toList
  | .path | .call => firstSegment argument.value.toList

/-- The sign of an argument. -/
def Argument.sign (argument : Argument) : Sign := ⟨argument.span, argument.word⟩

/-- An annotation is pointed at by its own sign; then come its arguments. -/
def Annotation.signs (note : Annotation) : List Sign :=
  ⟨note.span, Source.Mark.spelling .at⟩ :: (note.arguments.getD []).map Argument.sign

/-- A parameter is pointed at by its name; then comes its type. -/
def Param.signs (param : Param) : List Sign :=
  ⟨param.span, param.name.toList⟩ :: TypeExpr.allSigns param.type.toList

/-- A method is pointed at by its name, after its annotations and before its parameters. -/
def MethodDef.signs (method : MethodDef Body) : List Sign :=
  method.annotations.flatMap Annotation.signs ++ ⟨method.span, method.name.toList⟩ ::
    (method.params.flatMap Param.signs ++ TypeExpr.allSigns method.result.toList)

/-- The signs of what is in a block. -/
def ImplDef.signs (impl : ImplDef Body) : List Sign :=
  impl.annotations.flatMap Annotation.signs ++
    (TypeExpr.allSigns impl.bases ++ impl.methods.flatMap MethodDef.signs)

/-- A block is pointed at by its first annotation, or else by its keyword. -/
def ImplDef.sign (impl : ImplDef Body) : Sign where
  span := impl.span
  word :=
    if impl.annotations.isEmpty then Source.Keyword.implWord.spelling else Source.Mark.spelling .at

/-- The signs of all annotations, arguments, bases, methods, parameters and types, in the order of
the text. -/
def Definition.signs (definition : Definition Body) : List Sign :=
  definition.impls.flatMap ImplDef.signs

/-- The signs of the blocks. -/
def Definition.blockSigns (definition : Definition Body) : List Sign :=
  definition.impls.map ImplDef.sign

/-! ## Signs and constructs -/

mutual

/-- The constructs of a type stand where its signs do. -/
theorem TypeExpr.span_constructs : ∀ type : TypeExpr,
    type.constructs.map Construct.span = type.signs.map Sign.span
  | ⟨_, args, span⟩ => congrArg (List.cons span) (span_allConstructs args)

/-- The constructs of types stand where their signs do. -/
theorem TypeExpr.span_allConstructs : ∀ types : List TypeExpr,
    (allConstructs types).map Construct.span = (allSigns types).map Sign.span
  | [] => rfl
  | type :: types => by
    rw [allConstructs, allSigns, List.map_append, List.map_append, type.span_constructs,
      span_allConstructs types]

end

/-- The constructs of an annotation stand where its signs do. -/
theorem Annotation.span_constructs (note : Annotation) :
    note.constructs.map Construct.span = note.signs.map Sign.span := by
  simp [Argument.construct, Argument.sign, Annotation.constructs, Annotation.signs,
    Function.comp_def]

/-- The constructs of a parameter stand where its signs do. -/
theorem Param.span_constructs (param : Param) :
    param.constructs.map Construct.span = param.signs.map Sign.span := by
  simp [Param.constructs, Param.signs, TypeExpr.span_allConstructs]

/-- A construct that is neither a block nor a method. -/
def Construct.Inner (construct : Construct) : Prop :=
  construct.rule ≠ .implBlock ∧ construct.rule ≠ .rpc

mutual

/-- No construct of a type is a block or a method. -/
theorem TypeExpr.inner_of_mem : ∀ type : TypeExpr, ∀ construct ∈ type.constructs, construct.Inner
  | ⟨_, args, _⟩ => List.forall_mem_cons.mpr ⟨by simp [Construct.Inner], inner_of_mem_all args⟩

/-- No construct of types is a block or a method. -/
theorem TypeExpr.inner_of_mem_all : ∀ types : List TypeExpr,
    ∀ construct ∈ allConstructs types, construct.Inner
  | [] => by simp [allConstructs]
  | type :: types => List.forall_mem_append.mpr ⟨type.inner_of_mem, inner_of_mem_all types⟩

end

/-- No construct of an annotation is a block or a method. -/
theorem Annotation.inner_of_mem (note : Annotation) :
    ∀ construct ∈ note.constructs, construct.Inner := by
  refine List.forall_mem_cons.mpr ⟨by simp [Construct.Inner], List.forall_mem_map.mpr ?_⟩
  rintro ⟨kind, _, _⟩ _
  cases kind <;> simp [Construct.Inner, Argument.construct, ArgumentKind.rule]

/-- No construct of a parameter is a block or a method. -/
theorem Param.inner_of_mem (param : Param) : ∀ construct ∈ param.constructs, construct.Inner :=
  List.forall_mem_cons.mpr ⟨by simp [Construct.Inner], TypeExpr.inner_of_mem_all _⟩

/-- The spans of the constructs of one kind. -/
def spansOf (rule : Rule) (constructs : List Construct) : List Span :=
  (constructs.filter fun construct => construct.rule = rule).map Construct.span

theorem spansOf_append (rule : Rule) (constructs others : List Construct) :
    spansOf rule (constructs ++ others) = spansOf rule constructs ++ spansOf rule others := by
  simp [spansOf]

theorem spansOf_flatMap {α : Type} (rule : Rule) (items : List α) (f : α → List Construct) :
    spansOf rule (items.flatMap f) = items.flatMap fun item => spansOf rule (f item) := by
  rw [spansOf, List.filter_flatMap, List.map_flatMap]
  rfl

/-- The spans of some constructs are among those of all. -/
theorem spansOf_sublist (rule : Rule) (constructs : List Construct) :
    (spansOf rule constructs).Sublist (constructs.map Construct.span) := List.filter_sublist.map _

/-- Constructs of other rules contribute no spans. -/
theorem spansOf_eq_nil {rule : Rule} {constructs : List Construct}
    (h : ∀ construct ∈ constructs, construct.rule ≠ rule) : spansOf rule constructs = [] := by
  rw [spansOf, List.map_eq_nil_iff, List.filter_eq_nil_iff]
  simpa using h

/-- A construct comes first among those of its kind. -/
theorem spansOf_cons (rule : Rule) (construct : Construct) (constructs : List Construct) :
    spansOf rule (construct :: constructs) =
      if construct.rule = rule then construct.span :: spansOf rule constructs
      else spansOf rule constructs := by
  by_cases h : construct.rule = rule <;> simp [spansOf, h]

/-- The constructs of one kind in a method are pointed at in the order in which they begin. -/
theorem MethodDef.spansOf_sublist (rule : Rule) (method : MethodDef Body) :
    (spansOf rule method.constructs).Sublist (method.signs.map Sign.span) := by
  have hinner : ∀ construct ∈ method.annotations.flatMap Annotation.constructs ++
      method.params.flatMap Param.constructs ++ TypeExpr.allConstructs method.result.toList,
      construct.Inner := by
    simp only [List.forall_mem_append, List.forall_mem_flatMap]
    exact ⟨⟨fun note _ => note.inner_of_mem, fun param _ => param.inner_of_mem⟩,
      TypeExpr.inner_of_mem_all _⟩
  rw [MethodDef.constructs, spansOf_cons, MethodDef.signs, List.map_append, List.map_cons,
    List.map_append]
  by_cases hrule : rule = .rpc
  · rw [if_pos hrule.symm, hrule, spansOf_eq_nil fun construct hmem => (hinner construct hmem).2]
    exact List.singleton_sublist.mpr (by simp)
  · rw [if_neg fun h => hrule h.symm]
    refine (Interpose.spansOf_sublist rule _).trans ?_
    rw [List.map_append, List.map_append, List.append_assoc]
    simp only [List.map_flatMap, Annotation.span_constructs, Param.span_constructs,
      TypeExpr.span_allConstructs]
    exact (List.Sublist.refl _).append (List.sublist_cons_self _ _)

/-- The constructs of one kind in a block are pointed at in the order in which they begin. -/
theorem ImplDef.spansOf_sublist {rule : Rule} (hrule : rule ≠ .implBlock) (impl : ImplDef Body) :
    (spansOf rule impl.constructs).Sublist (impl.signs.map Sign.span) := by
  rw [ImplDef.constructs, spansOf_cons, if_neg fun h => hrule h.symm, spansOf_append,
    spansOf_append, List.append_assoc, ImplDef.signs, List.map_append, List.map_append]
  refine .append ?_ (.append ?_ ?_)
  · rw [List.map_flatMap, spansOf_flatMap]
    refine List.Sublist.flatMap_right _ fun note _ => ?_
    exact note.span_constructs ▸ Interpose.spansOf_sublist rule _
  · exact TypeExpr.span_allConstructs impl.bases ▸ Interpose.spansOf_sublist rule _
  · rw [List.map_flatMap, spansOf_flatMap]
    exact List.Sublist.flatMap_right _ fun method _ => method.spansOf_sublist rule

/-- No construct of a method is a service block. -/
theorem MethodDef.not_block_of_mem (method : MethodDef Body) :
    ∀ construct ∈ method.constructs, construct.rule ≠ .implBlock := by
  rw [MethodDef.constructs]
  simp only [List.forall_mem_cons, List.forall_mem_append, List.forall_mem_flatMap]
  exact ⟨by simp, ⟨fun note _ construct hmem => (note.inner_of_mem construct hmem).1,
    fun param _ construct hmem => (param.inner_of_mem construct hmem).1⟩,
    fun construct hmem => (TypeExpr.inner_of_mem_all _ construct hmem).1⟩

/-- A block is the one block in it. -/
theorem ImplDef.spansOf_implBlock (impl : ImplDef Body) :
    spansOf .implBlock impl.constructs = [impl.sign.span] := by
  rw [ImplDef.constructs, spansOf_cons, if_pos rfl]
  refine congrArg (List.cons _) (spansOf_eq_nil ?_)
  simp only [List.forall_mem_append, List.forall_mem_flatMap]
  exact ⟨⟨fun note _ construct hmem => (note.inner_of_mem construct hmem).1,
    fun construct hmem => (TypeExpr.inner_of_mem_all _ construct hmem).1⟩,
    fun method _ => method.not_block_of_mem⟩

/-- The constructs of one kind are pointed at in the order in which they begin, and blocks are
pointed at by signs of their own. -/
theorem Definition.spansOf_sublist (rule : Rule) (definition : Definition Body) :
    (spansOf rule definition.constructs).Sublist (definition.signs.map Sign.span) ∨
      spansOf rule definition.constructs = definition.blockSigns.map Sign.span := by
  rw [Definition.constructs, spansOf_flatMap]
  by_cases hrule : rule = .implBlock
  · right
    simp [hrule, ImplDef.spansOf_implBlock, Definition.blockSigns, ← List.map_eq_flatMap]
  · left
    rw [Definition.signs, List.map_flatMap]
    exact List.Sublist.flatMap_right _ fun impl _ => impl.spansOf_sublist hrule

/-- Every construct is pointed at. -/
theorem Definition.exists_sign_of_mem {definition : Definition Body} {construct : Construct}
    (h : construct ∈ definition.constructs) :
    ∃ sign ∈ definition.signs ++ definition.blockSigns, sign.span = construct.span := by
  have hmem : construct.span ∈ spansOf construct.rule definition.constructs :=
    List.mem_map_of_mem (List.mem_filter.mpr ⟨h, by simp⟩)
  rw [← List.mem_map, List.map_append, List.mem_append]
  rcases definition.spansOf_sublist construct.rule with hsigns | hblocks
  · exact .inl (hsigns.subset hmem)
  · exact .inr (hblocks ▸ hmem)

end Interpose
