import Interpose.Source.Scan

/-!
# The grammar of definition files

The grammar as data: the terminals, the rules with the forms of their children, and the trees that
derive from them. A tree keeps every token that it derives, so its yield is the sequence of tokens
that it stands for. `Goes` says that the children read so far leave certain forms to be derived.
-/

namespace Interpose.Grammar

open Source

/-- The terminals of the grammar. -/
inductive Terminal where
  /-- A keyword. -/
  | word (keyword : Keyword)
  /-- A mark. -/
  | mark (mark : Mark)
  /-- A name. -/
  | name
  /-- A quoted literal. -/
  | quoted
  /-- A number with or without a sign. -/
  | number
  /-- The dots of a relative import. -/
  | dots
  /-- A fenced body. -/
  | body
  deriving DecidableEq, Repr

/-- The tokens that stand for a terminal. -/
inductive Terminal.Takes : Terminal → Token → Prop
  | word (keyword : Keyword) : Takes (.word keyword) (.word keyword)
  | mark (mark : Mark) : Takes (.mark mark) (.mark mark)
  | name (text : String) : Takes .name (.name text)
  | quoted (text : String) : Takes .quoted (.quoted text)
  | number (text : String) : Takes .number (.number text)
  | dots (count : Nat) : Takes .dots (.dots count)
  | body (text : String) : Takes .body (.body text)

/-- The rules of the grammar, by the trees that they make. -/
inductive Rule where
  | start
  | plainImport
  | fromImport
  | moduleRef
  | importName
  | dottedName
  | implBlock
  | bases
  | rpc
  | param
  | returnType
  /-- An annotation. -/
  | note
  | arguments
  | pathArg
  | callArg
  | literalArg
  | typeExpr
  | path
  deriving DecidableEq, Repr

/-- A part of what a rule derives. -/
inductive Form where
  /-- A token of a terminal. -/
  | terminal (terminal : Terminal)
  /-- A tree of one of some rules. -/
  | node (rules : List Rule)
  /-- The forms in their order, or nothing. -/
  | optional (forms : List Form)
  /-- The forms in their order any number of times. -/
  | repeated (forms : List Form)

namespace Form

/-- A keyword. -/
def word (keyword : Keyword) : Form := .terminal (.word keyword)

/-- A mark. -/
def mark (mark : Mark) : Form := .terminal (.mark mark)

/-- A name. -/
def name : Form := .terminal .name

/-- An item of a definition file. -/
def item : Form := .node [.plainImport, .fromImport, .implBlock]

/-- An argument of an annotation. -/
def argument : Form := .node [.pathArg, .callArg, .literalArg]

/-- A name, each time after a point. -/
def points : Form := .repeated [mark .dot, name]

/-- A name under which something is imported. -/
def renamed : Form := .optional [word .asWord, name]

/-- Further ones of some form, each after a comma. -/
def further (form : Form) : Form := .repeated [mark .comma, form]

/-- Nothing, or some of a form with commas between them and perhaps one after them. -/
def listed (form : Form) : Form := .optional [form, further form, .optional [mark .comma]]

end Form

open Form in
/-- What a rule derives, in one of several ways. -/
def Rule.alternatives : Rule → List (List Form)
  | .start => [[.repeated [item]]]
  | .plainImport => [[word .importWord, .node [.dottedName], renamed]]
  | .fromImport =>
    [[word .fromWord, .node [.moduleRef], word .importWord, .node [.importName],
      further (.node [.importName])]]
  | .moduleRef =>
    [[.optional [.terminal .dots], .node [.dottedName]], [.terminal .dots]]
  | .importName => [[name, renamed]]
  | .dottedName => [[name, points]]
  | .implBlock =>
    [[.repeated [.node [.note]], word .implWord, name, .optional [.node [.bases]],
      mark .openBrace, .repeated [.node [.rpc]], mark .closeBrace]]
  | .bases => [[mark .openParen, listed (.node [.typeExpr]), mark .closeParen]]
  | .rpc =>
    [[.repeated [.node [.note]], word .rpcWord, name, mark .openParen,
      listed (.node [.param]), mark .closeParen, .optional [.node [.returnType]],
      .terminal .body]]
  | .param => [[name, .optional [mark .colon, .node [.typeExpr]]]]
  | .returnType => [[mark .arrow, .node [.typeExpr]]]
  | .note => [[mark .at, .node [.path], .optional [.node [.arguments]]]]
  | .arguments => [[mark .openParen, listed argument, mark .closeParen]]
  | .pathArg => [[.node [.path]]]
  | .callArg => [[.node [.path], .node [.arguments]]]
  | .literalArg => [[.terminal .quoted], [.terminal .number]]
  | .typeExpr =>
    [[.node [.path], .optional [mark .openBracket, .node [.typeExpr],
      further (.node [.typeExpr]), mark .closeBracket]]]
  | .path => [[name, points]]

/-- A tree over tokens. -/
inductive ParseTree where
  /-- A token. -/
  | leaf (placed : Placed)
  /-- A tree of a rule with the trees below it. -/
  | node (rule : Rule) (children : List ParseTree)

mutual

/-- The tokens of a tree. -/
def ParseTree.yield : ParseTree → List Placed
  | .leaf placed => [placed]
  | .node _ children => yields children

/-- The tokens of trees, one tree after the other. -/
def yields : List ParseTree → List Placed
  | [] => []
  | tree :: trees => tree.yield ++ yields trees

end

/-- Trees that derive from forms, in their order. -/
inductive Derives : List Form → List ParseTree → Prop
  /-- Nothing derives from nothing. -/
  | nil : Derives [] []
  /-- A token derives from its terminal. -/
  | leaf {terminal : Terminal} {token : Token} {place : Place} {forms : List Form}
      {trees : List ParseTree} (htoken : terminal.Takes token) (hrest : Derives forms trees) :
      Derives (.terminal terminal :: forms) (.leaf ⟨token, place⟩ :: trees)
  /-- A tree of a rule derives when its children derive from one of the rule's alternatives. -/
  | node {rules : List Rule} {rule : Rule} {alternative forms : List Form}
      {children trees : List ParseTree} (hrule : rule ∈ rules)
      (halternative : alternative ∈ rule.alternatives) (hchildren : Derives alternative children)
      (hrest : Derives forms trees) : Derives (.node rules :: forms) (.node rule children :: trees)
  /-- Optional forms may be left out. -/
  | skip {inner forms : List Form} {trees : List ParseTree} (hrest : Derives forms trees) :
      Derives (.optional inner :: forms) trees
  /-- Optional forms may be taken. -/
  | take {inner forms : List Form} {trees : List ParseTree}
      (hrest : Derives (inner ++ forms) trees) : Derives (.optional inner :: forms) trees
  /-- Repeated forms may end. -/
  | stop {inner forms : List Form} {trees : List ParseTree} (hrest : Derives forms trees) :
      Derives (.repeated inner :: forms) trees
  /-- Repeated forms may be taken once more. -/
  | again {inner forms : List Form} {trees : List ParseTree}
      (hrest : Derives (inner ++ .repeated inner :: forms) trees) :
      Derives (.repeated inner :: forms) trees

/-- The children of a tree of a rule. -/
def Rule.Derives (rule : Rule) (children : List ParseTree) : Prop :=
  ∃ alternative ∈ rule.alternatives, Grammar.Derives alternative children

/-! ## Tokens -/

@[simp] theorem yields_nil : yields [] = [] := rfl

@[simp] theorem yields_cons (tree : ParseTree) (trees : List ParseTree) :
    yields (tree :: trees) = tree.yield ++ yields trees := rfl

@[simp] theorem yields_append (trees others : List ParseTree) :
    yields (trees ++ others) = yields trees ++ yields others := by
  induction trees with
  | nil => rfl
  | cons tree trees ih => rw [List.cons_append, yields_cons, ih, yields_cons, List.append_assoc]

@[simp] theorem yield_leaf (placed : Placed) : (ParseTree.leaf placed).yield = [placed] := rfl

@[simp] theorem yield_node (rule : Rule) (children : List ParseTree) :
    (ParseTree.node rule children).yield = yields children := rfl

/-! ## Partial derivations -/

/-- Trees that leave some forms of a rule to be derived: whatever derives from these completes a
tree of the rule. -/
def Goes (rule : Rule) (trees : List ParseTree) (forms : List Form) : Prop :=
  ∀ more, Derives forms more → rule.Derives (trees ++ more)

namespace Goes

variable {rule : Rule} {trees : List ParseTree} {forms inner : List Form}

/-- A rule begins with one of its alternatives. -/
theorem start {alternative : List Form} (h : alternative ∈ rule.alternatives) :
    Goes rule [] alternative := fun _ hmore => ⟨alternative, h, hmore⟩

/-- A rule is complete when it leaves nothing to be derived. -/
theorem derives (h : Goes rule trees []) : rule.Derives trees := by
  have hnil := h [] .nil
  rwa [List.append_nil] at hnil

/-- A token that a terminal takes becomes a leaf. -/
theorem leaf {terminal : Terminal}
    {token : Token} (h : Goes rule trees (.terminal terminal :: forms))
    (htoken : terminal.Takes token) (place : Place) :
    Goes rule (trees ++ [.leaf ⟨token, place⟩]) forms := by
  intro more hmore
  rw [List.append_assoc]
  exact h _ (.leaf htoken hmore)

/-- A derivation of a rule that may follow becomes a node. -/
theorem node {rules : List Rule} {below : Rule} {children : List ParseTree}
    (h : Goes rule trees (.node rules :: forms)) (hrule : below ∈ rules)
    (hchildren : below.Derives children) : Goes rule (trees ++ [.node below children]) forms := by
  obtain ⟨alternative, halternative, hderives⟩ := hchildren
  intro more hmore
  rw [List.append_assoc]
  exact h _ (.node hrule halternative hderives hmore)

/-- What is optional can be left out. -/
theorem skip (h : Goes rule trees (.optional inner :: forms)) : Goes rule trees forms :=
  fun more hmore => h more (.skip hmore)

/-- What is optional can follow. -/
theorem take (h : Goes rule trees (.optional inner :: forms)) : Goes rule trees (inner ++ forms) :=
  fun more hmore => h more (.take hmore)

/-- What is repeated can end. -/
theorem stop (h : Goes rule trees (.repeated inner :: forms)) : Goes rule trees forms :=
  fun more hmore => h more (.stop hmore)

/-- What is repeated can follow once more. -/
theorem again (h : Goes rule trees (.repeated inner :: forms)) :
    Goes rule trees (inner ++ .repeated inner :: forms) :=
  fun more hmore => h more (.again hmore)

/-- A keyword that comes next. -/
theorem word {keyword : Keyword} (h : Goes rule trees (Form.word keyword :: forms))
    (place : Place) :
    Goes rule (trees ++ [.leaf ⟨.word keyword, place⟩]) forms := h.leaf (.word keyword) place

/-- A mark that comes next. -/
theorem mark {mark : Mark} (h : Goes rule trees (Form.mark mark :: forms)) (place : Place) :
    Goes rule (trees ++ [.leaf ⟨.mark mark, place⟩]) forms := h.leaf (.mark mark) place

/-- A name that comes next. -/
theorem name (h : Goes rule trees (Form.name :: forms)) (text : String) (place : Place) :
    Goes rule (trees ++ [.leaf ⟨.name text, place⟩]) forms := h.leaf (.name text) place

end Goes

/-- What follows an item of a list that commas separate and a parenthesis ends. -/
def afterItem (form : Form) (forms : List Form) : List Form :=
  .further form :: .optional [.mark .comma] :: .mark .closeParen :: forms

/-- Trees after which another item of a list or the end of the list follows. -/
structure Lists (rule : Rule) (form : Form) (forms : List Form) (trees : List ParseTree) :
    Prop where
  next : Goes rule trees (form :: afterItem form forms)
  last : Goes rule trees (.mark .closeParen :: forms)

namespace Goes

variable {rule : Rule} {trees : List ParseTree} {form : Form} {forms : List Form}

/-- A list may begin with an item or end at once. -/
theorem lists (h : Goes rule trees (.listed form :: .mark .closeParen :: forms)) :
    Lists rule form forms trees := ⟨h.take, h.skip⟩

/-- A comma after an item may be followed by another one or by the end of the list. -/
theorem comma (h : Goes rule trees (afterItem form forms)) (place : Place) :
    Lists rule form forms (trees ++ [.leaf ⟨.mark .comma, place⟩]) :=
  ⟨h.again.mark place, h.stop.take.mark place⟩

/-- A list may end after an item. -/
theorem last (h : Goes rule trees (afterItem form forms)) :
    Goes rule trees (.mark .closeParen :: forms) := h.stop.skip

end Goes

end Interpose.Grammar
