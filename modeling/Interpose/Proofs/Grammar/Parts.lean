import Interpose.Proofs.Grammar.Image

/-!
# Derivations of parts

What has been read so far of a type or of an annotation is what some trees stand for whose tokens
are those that were read. Every token that is taken adds to these trees, so a part that is complete
is what a tree of its rule stands for.
-/

namespace Interpose

open Source Grammar

variable {token : Token} {place : Place}

/-! ## Names with points -/

/-- Names with points between them that have been read, as children of a tree of a rule. -/
structure Pointed (rule : Rule) (names : List String) (forms : List Form) (trees : List ParseTree) :
    Prop where
  goes : Goes rule trees forms
  names : Grammar.names trees = names

namespace Pointed

variable {rule : Rule} {words : List String} {trees : List ParseTree}

/-- The first name begins a path. -/
theorem start (hrule : [.name, .points] ∈ rule.alternatives) (name : String) (place : Place) :
    Pointed rule [name] [.points] [.leaf ⟨.name name, place⟩] :=
  ⟨(Goes.start hrule).name name place, rfl⟩

/-- A dot makes room for another name. -/
theorem dot (h : Pointed rule words [.points] trees) (place : Place) :
    Pointed rule words [.name, .points] (trees ++ [.leaf ⟨.mark .dot, place⟩]) := by
  refine ⟨h.goes.again.mark place, ?_⟩
  rw [names_append, h.names]
  exact List.append_nil _

/-- A name joins a path. -/
theorem add (h : Pointed rule words [.name, .points] trees) (name : String) (place : Place) :
    Pointed rule (words ++ [name]) [.points] (trees ++ [.leaf ⟨.name name, place⟩]) := by
  refine ⟨h.goes.name name place, ?_⟩
  rw [names_append, h.names]
  rfl

/-- The names are complete after each of them. -/
theorem derives (h : Pointed rule words [.points] trees) : rule.Derives trees :=
  h.goes.stop.derives

end Pointed

/-! ## Paths -/

/-- A path that has been read, as children of its tree that leave some forms. -/
structure Path.Spells (p : Path) (forms : List Form) (trees : List ParseTree) : Prop where
  names : Pointed .path p.names forms trees
  span : spanOf trees = p.span
  first : yields trees ≠ []

namespace Path

/-- A name begins a path that is spelled. -/
theorem spells_start (name : String) (place : Place) :
    Spells ⟨.ofPlace place, [name]⟩ [.points] [.leaf ⟨.name name, place⟩] :=
  ⟨.start (by simp [Rule.alternatives]) name place, rfl, by simp⟩

variable {p : Path} {trees : List ParseTree}

/-- A dot goes on with a path that is spelled. -/
theorem Spells.dot (h : p.Spells [.points] trees) (place : Place) :
    p.Spells [.name, .points] (trees ++ [.leaf ⟨.mark .dot, place⟩]) :=
  ⟨h.names.dot place, (spanOf_append h.first _).trans h.span, by simp⟩

/-- A name goes on with a path that is spelled. -/
theorem Spells.add (h : p.Spells [.name, .points] trees) (name : String) (place : Place) :
    (p.add name).Spells [.points] (trees ++ [.leaf ⟨.name name, place⟩]) :=
  ⟨h.names.add name place, (spanOf_append h.first _).trans h.span, by simp⟩

/-- The tree of a path has its text, whatever follows it without being a path. -/
theorem Spells.pathText (h : p.Spells [.points] trees) (others : List ParseTree) :
    Grammar.pathText (.node .path trees :: others) = p.text := by
  simp [Grammar.pathText, ParseTree.paths, h.names.names, text]

/-- Trees that begin with a path stand where the path does. -/
theorem Spells.spanOf (h : p.Spells [.points] trees) (others : List ParseTree) :
    Grammar.spanOf (.node .path trees :: others) = p.span := by
  have hyields : yields (.node .path trees :: others) = yields (trees ++ others) := by simp
  rw [Grammar.spanOf, hyields, ← Grammar.spanOf, spanOf_append h.first, h.span]

end Path

/-! ## Types -/

/-- What follows an opening bracket of a type. -/
def nextType : List Form :=
  [.node [.typeExpr], .further (.node [.typeExpr]), .mark .closeBracket]

/-- What follows an argument of a type. -/
def moreTypes : List Form := [.further (.node [.typeExpr]), .mark .closeBracket]

/-- A type whose bracket is open, as children of its tree that leave some forms. -/
structure OpenType.Spells (inner : OpenType) (forms : List Form) (trees : List ParseTree) :
    Prop where
  goes : Goes .typeExpr trees forms
  path : pathText trees = inner.path.text
  args : typesOf trees = inner.args
  span : spanOf trees = inner.path.span
  first : yields trees ≠ []

/-- A complete type, as the children of its tree. -/
structure TypeExpr.Spells (type : TypeExpr) (trees : List ParseTree) : Prop where
  derives : Rule.typeExpr.Derives trees
  types : ParseTree.types (.node .typeExpr trees) = [type]

/-- The types that are open, the innermost first, and the tokens that have been read of them. -/
inductive OpenType.Stacked : List OpenType → List Placed → Prop
  | nil : Stacked [] []
  | cons {inner : OpenType} {outer : List OpenType} {before : List Placed} {trees : List ParseTree}
      (houter : Stacked outer before) (hinner : inner.Spells nextType trees) :
      Stacked (inner :: outer) (before ++ yields trees)

/-- What has been read of a type. -/
def TypeReading.Spells (tokens : List Placed) : TypeReading → Prop
  | .start outer => OpenType.Stacked outer tokens
  | .path outer p => ∃ before trees, tokens = before ++ yields trees ∧
      OpenType.Stacked outer before ∧ p.Spells [.points] trees
  | .dot outer p => ∃ before trees, tokens = before ++ yields trees ∧
      OpenType.Stacked outer before ∧ p.Spells [.name, .points] trees
  | .closed outer type => ∃ before trees, tokens = before ++ yields trees ∧
      OpenType.Stacked outer before ∧ type.Spells trees

/-- A path in a type leaves its arguments. -/
theorem Path.Spells.goes_typeExpr {p : Path} {trees : List ParseTree}
    (h : p.Spells [.points] trees) :
    Goes .typeExpr [.node .path trees] [.optional [.mark .openBracket, .node [.typeExpr],
      .further (.node [.typeExpr]), .mark .closeBracket]] := by
  have hstart : Goes .typeExpr [] [.node [.path], .optional [.mark .openBracket,
      .node [.typeExpr], .further (.node [.typeExpr]), .mark .closeBracket]] :=
    Goes.start (by simp [Rule.alternatives])
  exact hstart.node List.mem_cons_self h.names.derives

/-- A path is a type without arguments. -/
theorem Path.Spells.type {p : Path} {trees : List ParseTree} (h : p.Spells [.points] trees) :
    p.type.Spells [.node .path trees] := by
  refine ⟨h.goes_typeExpr.skip.derives, ?_⟩
  rw [ParseTree.types, h.pathText, h.spanOf]
  rfl

/-- A bracket after a path opens a type. -/
theorem Path.Spells.open {p : Path} {trees : List ParseTree} (h : p.Spells [.points] trees)
    (place : Place) : OpenType.Spells ⟨p, []⟩ nextType
      [.node .path trees, .leaf ⟨.mark .openBracket, place⟩] :=
  ⟨h.goes_typeExpr.take.mark place, h.pathText _, rfl, h.spanOf _, by simp⟩

namespace OpenType.Spells

variable {inner : OpenType} {forms : List Form} {trees children : List ParseTree} {type : TypeExpr}

/-- A complete argument joins the open type. -/
theorem add (h : inner.Spells nextType trees) (htype : type.Spells children) :
    (inner.add type).Spells moreTypes (trees ++ [.node .typeExpr children]) := by
  refine ⟨h.goes.node List.mem_cons_self htype.derives, ?_, ?_, ?_, by simp [h.first]⟩
  · refine Eq.trans ?_ h.path
    simp [pathText, ParseTree.paths]
  · rw [typesOf_append, h.args, typesOf, htype.types]
    rfl
  · rw [spanOf_append h.first, h.span]
    rfl

/-- A mark after an argument leaves the type as it is. -/
theorem mark {mark : Mark} (h : inner.Spells (.mark mark :: forms) trees) (place : Place) :
    inner.Spells forms (trees ++ [.leaf ⟨.mark mark, place⟩]) := by
  refine ⟨h.goes.mark place, ?_, ?_, ?_, by simp⟩
  · refine Eq.trans ?_ h.path
    simp [pathText, ParseTree.paths]
  · rw [typesOf_append, h.args]
    exact List.append_nil _
  · rw [spanOf_append h.first, h.span]

/-- A comma makes room for another argument. -/
theorem comma (h : inner.Spells moreTypes trees) (place : Place) :
    inner.Spells nextType (trees ++ [.leaf ⟨.mark .comma, place⟩]) := by
  have hnext : inner.Spells (.mark .comma :: nextType) trees :=
    ⟨h.goes.again, h.path, h.args, h.span, h.first⟩
  exact hnext.mark place

/-- A bracket completes the type. -/
theorem close (h : inner.Spells nextType trees) (htype : type.Spells children) (place : Place) :
    (inner.close type).Spells
      (trees ++ [.node .typeExpr children] ++ [.leaf ⟨.mark .closeBracket, place⟩]) := by
  have hmore := h.add htype
  have hlast :
      (inner.add type).Spells [.mark .closeBracket] (trees ++ [.node .typeExpr children]) :=
    ⟨hmore.goes.stop, hmore.path, hmore.args, hmore.span, hmore.first⟩
  have hclosed := hlast.mark place
  refine ⟨hclosed.goes.derives, ?_⟩
  rw [ParseTree.types, hclosed.path, hclosed.args, hclosed.span]
  rfl

end OpenType.Spells

namespace TypeReading

/-- After a complete type, the innermost open one goes on or is closed. -/
private theorem spells_of_complete {inner : OpenType} {outer : List OpenType} {type : TypeExpr}
    {before : List Placed} {trees : List ParseTree}
    (houter : OpenType.Stacked (inner :: outer) before) (htype : type.Spells trees)
    (place : Place) :
    Spells (before ++ yields trees ++ [⟨.mark .comma, place⟩]) (.start (inner.add type :: outer)) ∧
      Spells (before ++ yields trees ++ [⟨.mark .closeBracket, place⟩])
        (.closed outer (inner.close type)) := by
  cases houter with
  | @cons _ _ first opened houter hinner =>
    constructor
    · have hcomma := OpenType.Stacked.cons houter ((hinner.add htype).comma place)
      simpa [Spells] using hcomma
    · exact ⟨first, _, by simp, houter, hinner.close htype place⟩

/-- A token that is taken goes on with the trees that have been read. -/
theorem Spells.step {reading next : TypeReading} {tokens : List Placed}
    (h : reading.Spells tokens) (hstep : reading.step token place = some next) :
    next.Spells (tokens ++ [⟨token, place⟩]) := by
  cases reading with
  | start outer =>
    simp only [TypeReading.step] at hstep
    split at hstep
    · obtain rfl := Option.some.inj hstep
      exact ⟨tokens, _, rfl, h, Path.spells_start _ place⟩
    · simp at hstep
  | path outer p =>
    obtain ⟨before, trees, rfl, houter, hp⟩ := h
    simp only [TypeReading.step] at hstep
    split at hstep
    · obtain rfl := Option.some.inj hstep
      exact ⟨before, _, by simp, houter, hp.dot place⟩
    · obtain rfl := Option.some.inj hstep
      have hopen := OpenType.Stacked.cons houter (hp.open place)
      simpa [Spells] using hopen
    · obtain rfl := Option.some.inj hstep
      simpa using (spells_of_complete houter hp.type place).1
    · obtain rfl := Option.some.inj hstep
      simpa using (spells_of_complete houter hp.type place).2
    · simp at hstep
  | dot outer p =>
    obtain ⟨before, trees, rfl, houter, hp⟩ := h
    simp only [TypeReading.step] at hstep
    split at hstep
    · obtain rfl := Option.some.inj hstep
      exact ⟨before, _, by simp, houter, hp.add _ place⟩
    · simp at hstep
  | closed outer type =>
    obtain ⟨before, trees, rfl, houter, htype⟩ := h
    simp only [TypeReading.step] at hstep
    split at hstep
    · obtain rfl := Option.some.inj hstep
      exact (spells_of_complete houter htype place).1
    · obtain rfl := Option.some.inj hstep
      exact (spells_of_complete houter htype place).2
    · simp at hstep

/-- A complete type is what the tree of its tokens stands for. -/
theorem Spells.done? {reading : TypeReading} {type : TypeExpr} {tokens : List Placed}
    (h : reading.Spells tokens) (hdone : reading.done? = some type) :
    ∃ trees, tokens = yields trees ∧ type.Spells trees := by
  cases reading with
  | path outer p =>
    cases outer with
    | nil =>
      obtain ⟨before, trees, rfl, houter, hp⟩ := h
      obtain rfl := Option.some.inj hdone
      cases houter with
      | nil => exact ⟨_, by simp, hp.type⟩
    | cons inner outer => simp [TypeReading.done?] at hdone
  | closed outer type =>
    cases outer with
    | nil =>
      obtain ⟨before, trees, rfl, houter, htype⟩ := h
      obtain rfl := Option.some.inj hdone
      cases houter with
      | nil => exact ⟨trees, rfl, htype⟩
    | cons inner outer => simp [TypeReading.done?] at hdone
  | _ => simp [TypeReading.done?] at hdone

end TypeReading

/-! ## Arguments -/

/-- Arguments that have been read, as children of their list that leave some forms. -/
structure Argument.Listed (args : List Argument) (forms : List Form) (trees : List ParseTree) :
    Prop where
  goes : Goes .arguments trees forms
  args : argumentsOf trees = args

/-- Arguments after which another one or the end of the list follows. -/
structure Argument.Ready (args : List Argument) (trees : List ParseTree) : Prop where
  lists : Lists .arguments .argument [] trees
  args : argumentsOf trees = args

/-- What follows an argument. -/
def moreArguments : List Form := afterItem .argument []

/-- The calls that are open, the innermost first, and the tokens that have been read of them and of
the lists that they stand in. -/
inductive OpenCall.Stacked : List OpenCall → List Placed → Prop
  | nil : Stacked [] []
  | cons {call : OpenCall} {outer : List OpenCall} {tokens : List Placed}
      {trees path : List ParseTree}
      (houter : Stacked outer tokens) (hbefore : Argument.Ready call.before trees)
      (hpath : call.path.Spells [.points] path) :
      Stacked (call :: outer) (tokens ++ yields trees ++ yields path)

/-- What has been read of arguments. -/
def ArgumentReading.Spells (tokens : List Placed) : ArgumentReading → Prop
  | .start outer args => ∃ before trees, tokens = before ++ yields trees ∧
      OpenCall.Stacked outer before ∧ Argument.Ready args trees
  | .path outer args p => ∃ before trees path, tokens = before ++ yields trees ++ yields path ∧
      OpenCall.Stacked outer before ∧ Argument.Ready args trees ∧ p.Spells [.points] path
  | .dot outer args p => ∃ before trees path, tokens = before ++ yields trees ++ yields path ∧
      OpenCall.Stacked outer before ∧ Argument.Ready args trees ∧ p.Spells [.name, .points] path
  | .value outer args => ∃ before trees, tokens = before ++ yields trees ∧
      OpenCall.Stacked outer before ∧ Argument.Listed args moreArguments trees
  | .closed args => ∃ trees, tokens = yields trees ∧ Rule.arguments.Derives trees ∧
      argumentsOf trees = args

namespace Argument

variable {args : List Argument} {forms : List Form} {trees children : List ParseTree}

/-- A parenthesis opens a list. -/
theorem ready_start (place : Place) : Ready [] [.leaf ⟨.mark .openParen, place⟩] := by
  have hstart : Goes .arguments [] [.mark .openParen, .listed .argument, .mark .closeParen] :=
    Goes.start (by simp [Rule.alternatives])
  exact ⟨(hstart.mark place).lists, rfl⟩

/-- An argument joins the list. -/
theorem Ready.add (h : Ready args trees) {rule : Rule}
    (hrule : rule ∈ [.pathArg, .callArg, .literalArg]) (hchildren : rule.Derives children)
    {arg : Argument} (harg : ParseTree.arguments (.node rule children) = [arg]) :
    Listed (args ++ [arg]) moreArguments (trees ++ [.node rule children]) := by
  refine ⟨h.lists.next.node hrule hchildren, ?_⟩
  rw [argumentsOf_append, h.args, argumentsOf, harg]
  rfl

/-- A path joins the list as an argument. -/
theorem Ready.addPath (h : Ready args trees) {p : Path} (hp : p.Spells [.points] children) :
    Listed (args ++ [p.argument]) moreArguments
      (trees ++ [.node .pathArg [.node .path children]]) := by
  have hstart : Goes .pathArg [] [.node [.path]] := Goes.start (by simp [Rule.alternatives])
  have hderives : Rule.pathArg.Derives [.node .path children] :=
    (hstart.node List.mem_cons_self hp.names.derives).derives
  refine h.add (by simp) hderives ?_
  rw [ParseTree.arguments, hp.pathText, hp.spanOf]
  rfl

/-- A literal joins the list as an argument. -/
theorem Ready.addLiteral (h : Ready args trees) {text : String}
    (htoken : token = .quoted text ∨ token = .number text) (place : Place) :
    Listed (args ++ [⟨.literal, text, .ofPlace place⟩]) moreArguments
      (trees ++ [.node .literalArg [.leaf ⟨token, place⟩]]) := by
  rcases htoken with rfl | rfl
  · have hstart : Goes .literalArg [] [.terminal .quoted] :=
      Goes.start (by simp [Rule.alternatives])
    exact h.add (by simp) (hstart.leaf (.quoted text) place).derives rfl
  · have hstart : Goes .literalArg [] [.terminal .number] :=
      Goes.start (by simp [Rule.alternatives])
    exact h.add (by simp) (hstart.leaf (.number text) place).derives rfl

/-- A comma makes room for another argument. -/
theorem Listed.comma (h : Listed args moreArguments trees) (place : Place) :
    Ready args (trees ++ [.leaf ⟨.mark .comma, place⟩]) := by
  refine ⟨h.goes.comma place, ?_⟩
  rw [argumentsOf_append, h.args]
  exact List.append_nil _

/-- A list can end after an argument. -/
theorem Listed.last (h : Listed args moreArguments trees) :
    Listed args [.mark .closeParen] trees := ⟨h.goes.last, h.args⟩

/-- After a complete argument, a list can be closed. -/
theorem Ready.last (h : Ready args trees) : Listed args [.mark .closeParen] trees :=
  ⟨h.lists.last, h.args⟩

/-- A parenthesis completes a list. -/
theorem Listed.close (h : Listed args [.mark .closeParen] trees) (place : Place) :
    Rule.arguments.Derives (trees ++ [.leaf ⟨.mark .closeParen, place⟩]) ∧
      argumentsOf (trees ++ [.leaf ⟨.mark .closeParen, place⟩]) = args := by
  refine ⟨(h.goes.mark place).derives, ?_⟩
  rw [argumentsOf_append, h.args]
  exact List.append_nil _

/-- A list after a path joins the list around it as a call. -/
theorem Ready.addCall {call : OpenCall} (h : Ready call.before trees) {path list : List ParseTree}
    (hpath : call.path.Spells [.points] path) (hderives : Rule.arguments.Derives list)
    (hargs : argumentsOf list = args) :
    Listed (call.close args) moreArguments
      (trees ++ [.node .callArg [.node .path path, .node .arguments list]]) := by
  have hstart : Goes .callArg [] [.node [.path], .node [.arguments]] :=
    Goes.start (by simp [Rule.alternatives])
  have hopen : Goes .callArg [.node .path path] [.node [.arguments]] :=
    hstart.node List.mem_cons_self hpath.names.derives
  have hcall : Rule.callArg.Derives [.node .path path, .node .arguments list] :=
    (hopen.node List.mem_cons_self hderives).derives
  have hlist : argumentsOf [.node .path path, .node .arguments list] = args := by
    simp [argumentsOf, ParseTree.arguments, hargs]
  refine h.add (by simp) hcall ?_
  rw [ParseTree.arguments, hpath.pathText, hpath.spanOf, hlist]

end Argument

namespace ArgumentReading

/-- A parenthesis closes the innermost list. -/
private theorem spells_close {args : List Argument} {outer : List OpenCall} {before : List Placed}
    {trees : List ParseTree} (houter : OpenCall.Stacked outer before)
    (h : Argument.Listed args [.mark .closeParen] trees) (place : Place) :
    (close args outer).Spells (before ++ yields trees ++ [⟨.mark .closeParen, place⟩]) := by
  obtain ⟨hderives, hargs⟩ := h.close place
  cases houter with
  | nil => exact ⟨_, by simp, hderives, hargs⟩
  | cons houter hbefore hpath =>
    exact ⟨_, _, by simp, houter, hbefore.addCall hpath hderives hargs⟩

/-- A token that is taken goes on with the trees that have been read. -/
theorem Spells.step {reading next : ArgumentReading} {tokens : List Placed}
    (h : reading.Spells tokens) (hstep : reading.step token place = some next) :
    next.Spells (tokens ++ [⟨token, place⟩]) := by
  cases reading with
  | start outer args =>
    obtain ⟨before, trees, rfl, houter, hready⟩ := h
    simp only [ArgumentReading.step] at hstep
    split at hstep
    · obtain rfl := Option.some.inj hstep
      exact ⟨before, trees, _, rfl, houter, hready, Path.spells_start _ place⟩
    · obtain rfl := Option.some.inj hstep
      exact ⟨before, _, by simp, houter, hready.addLiteral (.inl rfl) place⟩
    · obtain rfl := Option.some.inj hstep
      exact ⟨before, _, by simp, houter, hready.addLiteral (.inr rfl) place⟩
    · obtain rfl := Option.some.inj hstep
      exact spells_close houter hready.last place
    · simp at hstep
  | path outer args p =>
    obtain ⟨before, trees, path, rfl, houter, hready, hp⟩ := h
    simp only [ArgumentReading.step] at hstep
    split at hstep
    · obtain rfl := Option.some.inj hstep
      exact ⟨before, trees, _, by simp, houter, hready, hp.dot place⟩
    · obtain rfl := Option.some.inj hstep
      exact ⟨_, _, rfl, .cons houter hready hp, Argument.ready_start place⟩
    · obtain rfl := Option.some.inj hstep
      exact ⟨before, _, by simp, houter, (hready.addPath hp).comma place⟩
    · obtain rfl := Option.some.inj hstep
      simpa using spells_close houter (hready.addPath hp).last place
    · simp at hstep
  | dot outer args p =>
    obtain ⟨before, trees, path, rfl, houter, hready, hp⟩ := h
    simp only [ArgumentReading.step] at hstep
    split at hstep
    · obtain rfl := Option.some.inj hstep
      exact ⟨before, trees, _, by simp, houter, hready, hp.add _ place⟩
    · simp at hstep
  | value outer args =>
    obtain ⟨before, trees, rfl, houter, hlisted⟩ := h
    simp only [ArgumentReading.step] at hstep
    split at hstep
    · obtain rfl := Option.some.inj hstep
      exact ⟨before, _, by simp, houter, hlisted.comma place⟩
    · obtain rfl := Option.some.inj hstep
      exact spells_close houter hlisted.last place
    · simp at hstep
  | closed args => simp [ArgumentReading.step] at hstep

end ArgumentReading

/-! ## Annotations -/

/-- A complete annotation, as the children of its tree. -/
structure Annotation.Spells (note : Annotation) (trees : List ParseTree) : Prop where
  derives : Rule.note.Derives trees
  image : annotationOf trees = note
  first : yields trees ≠ []

namespace Path.Spells

variable {p : Path} {path : List ParseTree}

/-- A path in an annotation leaves its arguments. -/
theorem goes_note (h : p.Spells [.points] path) (place : Place) :
    Goes .note [.leaf ⟨.mark .at, place⟩, .node .path path]
      [.optional [.node [.arguments]]] := by
  have hstart : Goes .note [] [.mark .at, .node [.path], .optional [.node [.arguments]]] :=
    Goes.start (by simp [Rule.alternatives])
  exact (hstart.mark place).node List.mem_cons_self h.names.derives

/-- An annotation without arguments has its path as a name. -/
theorem annotationOf_path (h : p.Spells [.points] path) (place : Place) :
    annotationOf [.leaf ⟨.mark .at, place⟩, .node .path path] =
      ⟨p.text, none, .ofPlace place⟩ := by
  have hname : Grammar.pathText [.leaf ⟨.mark .at, place⟩, .node .path path] = p.text :=
    h.pathText []
  rw [annotationOf, hname]
  rfl

/-- An annotation has the arguments of its list. -/
theorem annotationOf_list (h : p.Spells [.points] path) (place : Place) (list : List ParseTree) :
    annotationOf [.leaf ⟨.mark .at, place⟩, .node .path path, .node .arguments list] =
      ⟨p.text, some (argumentsOf list), .ofPlace place⟩ := by
  have hname : Grammar.pathText
      [.leaf ⟨.mark .at, place⟩, .node .path path, .node .arguments list] = p.text := h.pathText _
  have hargs : argumentsOf [.leaf ⟨.mark .at, place⟩, .node .path path, .node .arguments list] =
      argumentsOf list := by simp [argumentsOf, ParseTree.arguments]
  rw [annotationOf, hname, hargs]
  rfl

end Path.Spells

/-- What has been read of an annotation. -/
def AnnotationReading.Spells (tokens : List Placed) : AnnotationReading → Prop
  | .start span => ∃ place, tokens = [⟨.mark .at, place⟩] ∧ span = .ofPlace place
  | .path span p => ∃ place path, tokens = ⟨.mark .at, place⟩ :: yields path ∧
      span = .ofPlace place ∧ p.Spells [.points] path
  | .dot span p => ∃ place path, tokens = ⟨.mark .at, place⟩ :: yields path ∧
      span = .ofPlace place ∧ p.Spells [.name, .points] path
  | .arguments span p reading => ∃ place path list,
      tokens = ⟨.mark .at, place⟩ :: yields path ++ list ∧ span = .ofPlace place ∧
      p.Spells [.points] path ∧ reading.Spells list

namespace AnnotationReading

variable {reading next : AnnotationReading} {tokens : List Placed}

/-- A token that is taken goes on with the trees that have been read. -/
theorem Spells.step (h : reading.Spells tokens) (hstep : reading.step token place = some next) :
    next.Spells (tokens ++ [⟨token, place⟩]) := by
  cases reading with
  | start span =>
    obtain ⟨sign, rfl, hspan⟩ := h
    simp only [AnnotationReading.step] at hstep
    split at hstep
    · obtain rfl := Option.some.inj hstep
      exact ⟨sign, _, rfl, hspan, Path.spells_start _ place⟩
    · simp at hstep
  | path span p =>
    obtain ⟨sign, path, rfl, hspan, hp⟩ := h
    simp only [AnnotationReading.step] at hstep
    split at hstep
    · obtain rfl := Option.some.inj hstep
      exact ⟨sign, _, by simp, hspan, hp.dot place⟩
    · obtain rfl := Option.some.inj hstep
      exact ⟨sign, path, _, rfl, hspan, hp, [], _, by simp, .nil, Argument.ready_start place⟩
    · simp at hstep
  | dot span p =>
    obtain ⟨sign, path, rfl, hspan, hp⟩ := h
    simp only [AnnotationReading.step] at hstep
    split at hstep
    · obtain rfl := Option.some.inj hstep
      exact ⟨sign, _, by simp, hspan, hp.add _ place⟩
    · simp at hstep
  | arguments span p inner =>
    obtain ⟨sign, path, list, rfl, hspan, hp, hinner⟩ := h
    obtain ⟨inner', hinner', rfl⟩ := Option.map_eq_some_iff.mp hstep
    exact ⟨sign, path, _, by simp, hspan, hp, hinner.step hinner'⟩

/-- A complete annotation is what the tree of its tokens stands for. -/
theorem Spells.done? {note : Annotation} (h : reading.Spells tokens)
    (hdone : reading.done? = some note) : ∃ trees, tokens = yields trees ∧ note.Spells trees := by
  unfold AnnotationReading.done? at hdone
  split at hdone
  · rename_i span p
    obtain ⟨place, path, rfl, rfl, hp⟩ := h
    obtain rfl := Option.some.inj hdone
    exact ⟨_, by simp, (hp.goes_note place).skip.derives, hp.annotationOf_path place,
      by simp⟩
  · rename_i span p args
    obtain ⟨place, path, _, rfl, rfl, hp, list, rfl, hderives, rfl⟩ := h
    obtain rfl := Option.some.inj hdone
    have hlist := (hp.goes_note place).take.node List.mem_cons_self hderives
    exact ⟨_, by simp, hlist.derives, hp.annotationOf_list place list, by simp⟩
  · simp at hdone

end AnnotationReading

end Interpose
