import Interpose.Proofs.Definition.Feeding
import Interpose.Proofs.Grammar.Expansion
import Interpose.Proofs.Grammar.Imports
import Mathlib.Data.List.Basic

/-!
# Awaited tokens

What has been read of a type, an annotation or an import awaits the tokens with which it is
completed, and the tokens of what follows it. It takes the first of them, or it is complete and what
follows it comes next.
-/

namespace Interpose

open Source Grammar Grammar.Expands

variable {token : Token} {place : Place} {more : List Placed} {forms : List Form}

/-! ## Types -/

/-- The arguments that may follow the path of a type. -/
def typeArgs : Form := .optional (.mark .openBracket :: nextType)

/-- What follows a complete type within open ones. -/
def afterType (forms : List Form) : List OpenType → List Form
  | [] => forms
  | _ :: outer => moreTypes ++ afterType forms outer

namespace TypeReading

/-- The tokens of the rest of a type and of what follows it. -/
def Awaits (forms : List Form) (tokens : List Placed) : TypeReading → Prop
  | .start outer => Expands (.node [.typeExpr] :: afterType forms outer) tokens
  | .path outer _ => Expands (.points :: typeArgs :: afterType forms outer) tokens
  | .dot outer _ => Expands (.name :: .points :: typeArgs :: afterType forms outer) tokens
  | .closed outer _ => Expands (afterType forms outer) tokens

/-- A type takes the next token, or it is complete and what follows it comes next. -/
def Goes (forms : List Form) (token : Token) (place : Place) (more : List Placed)
    (inner : TypeReading) : Prop :=
  (∃ next, inner.step token place = some next ∧ next.Awaits forms more) ∨
    ∃ type, Settled [] type inner ∧ Expands forms (⟨token, place⟩ :: more)

/-- A complete type goes on with the type around it, if there is one. -/
private theorem Settled.goes {outer : List OpenType} {type : TypeExpr} {inner : TypeReading}
    (h : Settled outer type inner)
    (hmore : Expands (afterType forms outer) (⟨token, place⟩ :: more)) :
    inner.Goes forms token place more := by
  cases outer with
  | nil => exact .inr ⟨type, h, hmore⟩
  | cons open' outer =>
    rcases further_cons.mp hmore with ⟨rfl, hrest⟩ | hlast
    · exact .inl ⟨_, h.comma, hrest⟩
    · obtain ⟨rfl, hrest⟩ := mark_cons.mp hlast
      exact .inl ⟨_, h.closeBracket, hrest⟩

theorem Awaits.goes {inner : TypeReading} (h : inner.Awaits forms (⟨token, place⟩ :: more)) :
    inner.Goes forms token place more := by
  cases inner with
  | start outer =>
    obtain ⟨⟨name, rfl⟩, hmore⟩ := path_cons.mp ((node_singleton rfl).mp h)
    exact .inl ⟨_, rfl, hmore⟩
  | path outer p =>
    rcases points_cons.mp h with ⟨rfl, hmore⟩ | hmore
    · exact .inl ⟨_, rfl, hmore⟩
    · rcases optional_iff.mp hmore with hargs | hmore
      · obtain ⟨rfl, hrest⟩ := mark_cons.mp hargs
        exact .inl ⟨_, rfl, hrest⟩
      · exact (Settled.path p).goes hmore
  | dot outer p =>
    obtain ⟨⟨name, rfl⟩, hmore⟩ := name_cons.mp h
    exact .inl ⟨_, rfl, hmore⟩
  | closed outer type => exact (Settled.closed type).goes h

private theorem mem_afterType {form : Form} (h : form ∈ forms) (outer : List OpenType) :
    form ∈ afterType forms outer := by
  induction outer with
  | nil => exact h
  | cons open' outer ih => exact List.mem_append_right _ ih

/-- Where no token is awaited, no terminal follows. -/
theorem Awaits.terminal_notMem {inner : TypeReading} (h : inner.Awaits forms [])
    (terminal : Terminal) : .terminal terminal ∉ forms := by
  intro hmem
  cases inner with
  | start outer => exact Expands.terminal_notMem h terminal (by simp [mem_afterType hmem])
  | path outer p => exact Expands.terminal_notMem h terminal (by simp [mem_afterType hmem])
  | dot outer p => exact Expands.terminal_notMem h terminal (by simp [mem_afterType hmem])
  | closed outer type => exact Expands.terminal_notMem h terminal (mem_afterType hmem outer)

end TypeReading

/-! ## Annotations -/

namespace ArgumentReading

/-- What follows the parenthesis that closes the innermost list of arguments. -/
def afterList (forms : List Form) : List OpenCall → List Form
  | [] => forms
  | _ :: outer => afterItem .argument (afterList forms outer)

/-- The tokens of the rest of a list of arguments and of what follows it. -/
def Awaits (forms : List Form) (tokens : List Placed) : ArgumentReading → Prop
  | .start outer _ =>
    Expands (.listed .argument :: .mark .closeParen :: afterList forms outer) tokens
  | .path outer _ _ =>
    Expands (.points :: .node [.arguments] :: afterItem .argument (afterList forms outer)) tokens ∨
      Expands (.points :: afterItem .argument (afterList forms outer)) tokens
  | .dot outer _ _ =>
    Expands (.name :: .points :: .node [.arguments] ::
        afterItem .argument (afterList forms outer)) tokens ∨
      Expands (.name :: .points :: afterItem .argument (afterList forms outer)) tokens
  | .value outer _ => Expands (afterItem .argument (afterList forms outer)) tokens
  | .closed _ => Expands forms tokens

theorem awaits_close {args : List Argument} {outer : List OpenCall}
    (h : Expands (afterList forms outer) more) : (close args outer).Awaits forms more := by
  cases outer with
  | nil => exact h
  | cons call outer => exact h

/-- After an argument, another one follows or its list is closed. -/
private theorem Settled.exists_step {outer : List OpenCall} {args : List Argument}
    {inner : ArgumentReading} (h : Settled outer args inner)
    (hmore : Expands (afterItem .argument (afterList forms outer)) (⟨token, place⟩ :: more)) :
    ∃ next, inner.step token place = some next ∧ next.Awaits forms more := by
  rcases afterItem_cons.mp hmore with ⟨rfl, hrest⟩ | ⟨rfl, hrest⟩
  · exact ⟨_, h.comma, hrest⟩
  · exact ⟨_, h.closeParen, awaits_close hrest⟩

/-- The first token of a further argument is taken. -/
private theorem exists_step_start {outer : List OpenCall} {args : List Argument}
    (h : Expands (.argument :: afterItem .argument (afterList forms outer))
      (⟨token, place⟩ :: more)) :
    ∃ next, (start outer args).step token place = some next ∧ next.Awaits forms more := by
  obtain ⟨rule, hrule, alternative, halternative, hrest⟩ := node_iff.mp h
  simp only [List.mem_cons, List.not_mem_nil, or_false] at hrule
  rcases hrule with rfl | rfl | rfl
  · obtain rfl := List.mem_singleton.mp halternative
    obtain ⟨⟨name, rfl⟩, hmore⟩ := path_cons.mp hrest
    exact ⟨_, rfl, .inr hmore⟩
  · obtain rfl := List.mem_singleton.mp halternative
    obtain ⟨⟨name, rfl⟩, hmore⟩ := path_cons.mp hrest
    exact ⟨_, rfl, .inl hmore⟩
  · rcases List.mem_pair.mp halternative with rfl | rfl
    · obtain ⟨htoken, hmore⟩ := terminal_cons.mp hrest
      obtain ⟨text, rfl⟩ := Terminal.takes_quoted.mp htoken
      exact ⟨_, rfl, hmore⟩
    · obtain ⟨htoken, hmore⟩ := terminal_cons.mp hrest
      obtain ⟨text, rfl⟩ := Terminal.takes_number.mp htoken
      exact ⟨_, rfl, hmore⟩

/-- A list of arguments that is not closed takes the next token. -/
theorem Awaits.exists_step {inner : ArgumentReading} (hopen : ∀ args, inner ≠ .closed args)
    (h : inner.Awaits forms (⟨token, place⟩ :: more)) :
    ∃ next, inner.step token place = some next ∧ next.Awaits forms more := by
  cases inner with
  | start outer args =>
    rcases optional_iff.mp h with hargument | hlast
    · exact exists_step_start hargument
    · obtain ⟨rfl, hmore⟩ := mark_cons.mp hlast
      exact ⟨_, rfl, awaits_close hmore⟩
  | path outer args p =>
    rcases h with hcall | hpath
    · rcases points_cons.mp hcall with ⟨rfl, hmore⟩ | hlist
      · exact ⟨_, rfl, .inl hmore⟩
      · obtain ⟨rfl, hmore⟩ := mark_cons.mp ((node_singleton rfl).mp hlist)
        exact ⟨_, rfl, hmore⟩
    · rcases points_cons.mp hpath with ⟨rfl, hmore⟩ | hmore
      · exact ⟨_, rfl, .inr hmore⟩
      · exact (Settled.path args p).exists_step hmore
  | dot outer args p =>
    rcases h with hcall | hpath
    · obtain ⟨⟨name, rfl⟩, hmore⟩ := name_cons.mp hcall
      exact ⟨_, rfl, .inl hmore⟩
    · obtain ⟨⟨name, rfl⟩, hmore⟩ := name_cons.mp hpath
      exact ⟨_, rfl, .inr hmore⟩
  | value outer args => exact (Settled.value args).exists_step h
  | closed args => exact absurd rfl (hopen args)

private theorem mem_afterList {form : Form} (h : form ∈ forms) (outer : List OpenCall) :
    form ∈ afterList forms outer := by
  induction outer with
  | nil => exact h
  | cons call outer ih => simp [afterList, afterItem, ih]

/-- Where no token is awaited, no terminal follows. -/
theorem Awaits.terminal_notMem {inner : ArgumentReading} (h : inner.Awaits forms [])
    (terminal : Terminal) : .terminal terminal ∉ forms := by
  intro hmem
  cases inner with
  | start outer args => exact Expands.terminal_notMem h terminal (by simp [mem_afterList hmem])
  | path outer args p =>
    rcases h with h | h
    · exact Expands.terminal_notMem h terminal (by simp [afterItem, mem_afterList hmem])
    · exact Expands.terminal_notMem h terminal (by simp [afterItem, mem_afterList hmem])
  | dot outer args p =>
    rcases h with h | h
    · exact Expands.terminal_notMem h terminal (by simp [afterItem, mem_afterList hmem])
    · exact Expands.terminal_notMem h terminal (by simp [afterItem, mem_afterList hmem])
  | value outer args =>
    exact Expands.terminal_notMem h terminal (by simp [afterItem, mem_afterList hmem])
  | closed args => exact Expands.terminal_notMem h terminal hmem

end ArgumentReading

namespace AnnotationReading

/-- The tokens of the rest of an annotation and of what follows it. -/
def Awaits (forms : List Form) (tokens : List Placed) : AnnotationReading → Prop
  | .start _ => Expands (.node [.path] :: .optional [.node [.arguments]] :: forms) tokens
  | .path _ _ => Expands (.points :: .optional [.node [.arguments]] :: forms) tokens
  | .dot _ _ => Expands (.name :: .points :: .optional [.node [.arguments]] :: forms) tokens
  | .arguments _ _ inner => inner.Awaits forms tokens

/-- An annotation takes the next token, or it is complete and what follows it comes next. -/
theorem Awaits.goes {inner : AnnotationReading}
    (h : inner.Awaits forms (⟨token, place⟩ :: more)) :
    (∃ next, inner.step token place = some next ∧ next.Awaits forms more) ∨
      ∃ note, Settled place note inner ∧ Expands forms (⟨token, place⟩ :: more) := by
  cases inner with
  | start span =>
    obtain ⟨⟨name, rfl⟩, hmore⟩ := path_cons.mp h
    exact .inl ⟨_, rfl, hmore⟩
  | path span p =>
    rcases points_cons.mp h with ⟨rfl, hmore⟩ | hmore
    · exact .inl ⟨_, rfl, hmore⟩
    · rcases optional_iff.mp hmore with hlist | hmore
      · obtain ⟨rfl, hrest⟩ := mark_cons.mp ((node_singleton rfl).mp hlist)
        exact .inl ⟨_, rfl, hrest⟩
      · exact .inr ⟨_, settled_path span p, hmore⟩
  | dot span p =>
    obtain ⟨⟨name, rfl⟩, hmore⟩ := name_cons.mp h
    exact .inl ⟨_, rfl, hmore⟩
  | arguments span p inner =>
    by_cases hclosed : ∃ args, inner = .closed args
    · obtain ⟨args, rfl⟩ := hclosed
      exact .inr ⟨_, ⟨rfl, fun _ _ _ => rfl⟩, h⟩
    · obtain ⟨next, hnext, hmore⟩ := ArgumentReading.Awaits.exists_step
        (fun args hargs => hclosed ⟨args, hargs⟩) h
      exact .inl ⟨.arguments span p next, by simp [AnnotationReading.step, hnext], hmore⟩

/-- Where no token is awaited, no terminal follows. -/
theorem Awaits.terminal_notMem {inner : AnnotationReading} (h : inner.Awaits forms [])
    (terminal : Terminal) : .terminal terminal ∉ forms := by
  intro hmem
  cases inner with
  | start span => exact Expands.terminal_notMem h terminal (by simp [hmem])
  | path span p => exact Expands.terminal_notMem h terminal (by simp [hmem])
  | dot span p => exact Expands.terminal_notMem h terminal (by simp [hmem])
  | arguments span p inner => exact ArgumentReading.Awaits.terminal_notMem h terminal hmem

end AnnotationReading

/-! ## Imports -/

namespace ImportReading

/-- What follows the module of a selective import. -/
def afterOrigin (forms : List Form) : List Form := .word .importWord :: (nextPick ++ forms)

/-- The tokens of the rest of an import and of what follows it. -/
def Awaits (forms : List Form) (tokens : List Placed) : ImportReading → Prop
  | .plain => Expands (.node [.dottedName] :: .renamed :: forms) tokens
  | .plainPath _ => Expands (.points :: .renamed :: forms) tokens
  | .plainDot _ => Expands (.name :: .points :: .renamed :: forms) tokens
  | .plainAs _ => Expands (.name :: forms) tokens
  | .plainDone _ _ => Expands forms tokens
  | .source => Expands (.node [.moduleRef] :: afterOrigin forms) tokens
  | .sourceDots _ => Expands (.node [.dottedName] :: afterOrigin forms) tokens ∨
      Expands (afterOrigin forms) tokens
  | .sourcePath _ _ => Expands (.points :: afterOrigin forms) tokens
  | .sourceDot _ _ => Expands (.name :: .points :: afterOrigin forms) tokens
  | .pick _ _ => Expands (nextPick ++ forms) tokens
  | .picked _ _ _ => Expands (.renamed :: (morePicks ++ forms)) tokens
  | .pickAs _ _ _ => Expands (.name :: (morePicks ++ forms)) tokens
  | .pickedAs _ _ => Expands (morePicks ++ forms) tokens

/-- An import takes the next token, or it is complete and what follows it comes next. -/
def Goes (forms : List Form) (token : Token) (place : Place) (more : List Placed)
    (inner : ImportReading) : Prop :=
  (∃ next, inner.step token = some next ∧ next.Awaits forms more) ∨
    ∃ item, Settled item inner ∧ Expands forms (⟨token, place⟩ :: more)

/-- After a name that is imported, another one or the end of the import follows. -/
private theorem Picked.goes {origin : String} {picks : List String} {inner : ImportReading}
    (h : Picked origin picks inner)
    (hmore : Expands (morePicks ++ forms) (⟨token, place⟩ :: more)) :
    inner.Goes forms token place more := by
  rcases further_cons.mp hmore with ⟨rfl, hrest⟩ | hrest
  · exact .inl ⟨_, h.comma, hrest⟩
  · exact .inr ⟨_, h.settled, hrest⟩

/-- The first token of a module is taken. -/
private theorem goes_source
    (h : Expands (.node [.moduleRef] :: afterOrigin forms) (⟨token, place⟩ :: more)) :
    source.Goes forms token place more := by
  obtain ⟨rule, hrule, alternative, halternative, hrest⟩ := node_iff.mp h
  obtain rfl := List.mem_singleton.mp hrule
  rcases List.mem_pair.mp halternative with rfl | rfl
  · rcases optional_iff.mp hrest with hdots | hname
    · obtain ⟨htoken, hmore⟩ := terminal_cons.mp hdots
      obtain ⟨count, rfl⟩ := Terminal.takes_dots.mp htoken
      exact .inl ⟨_, rfl, .inl hmore⟩
    · obtain ⟨⟨name, rfl⟩, hmore⟩ := dottedName_cons.mp hname
      exact .inl ⟨_, rfl, hmore⟩
  · obtain ⟨htoken, hmore⟩ := terminal_cons.mp hrest
    obtain ⟨count, rfl⟩ := Terminal.takes_dots.mp htoken
    exact .inl ⟨_, rfl, .inr hmore⟩

theorem Awaits.goes {inner : ImportReading} (h : inner.Awaits forms (⟨token, place⟩ :: more)) :
    inner.Goes forms token place more := by
  cases inner with
  | plain =>
    obtain ⟨⟨name, rfl⟩, hmore⟩ := dottedName_cons.mp h
    exact .inl ⟨_, rfl, hmore⟩
  | plainPath names =>
    rcases points_cons.mp h with ⟨rfl, hmore⟩ | hmore
    · exact .inl ⟨_, rfl, hmore⟩
    · rcases optional_iff.mp hmore with has | hend
      · obtain ⟨rfl, hrest⟩ := word_cons.mp has
        exact .inl ⟨_, rfl, hrest⟩
      · exact .inr ⟨_, settled_plainPath names, hend⟩
  | plainDot names =>
    obtain ⟨⟨name, rfl⟩, hmore⟩ := name_cons.mp h
    exact .inl ⟨_, rfl, hmore⟩
  | plainAs names =>
    obtain ⟨⟨name, rfl⟩, hmore⟩ := name_cons.mp h
    exact .inl ⟨_, rfl, hmore⟩
  | plainDone names new => exact .inr ⟨_, ⟨rfl, fun _ _ _ _ => rfl⟩, h⟩
  | source => exact goes_source h
  | sourceDots count =>
    rcases h with hname | himport
    · obtain ⟨⟨name, rfl⟩, hmore⟩ := dottedName_cons.mp hname
      exact .inl ⟨_, rfl, hmore⟩
    · obtain ⟨rfl, hmore⟩ := word_cons.mp himport
      exact .inl ⟨_, rfl, hmore⟩
  | sourcePath dots names =>
    rcases points_cons.mp h with ⟨rfl, hmore⟩ | himport
    · exact .inl ⟨_, rfl, hmore⟩
    · obtain ⟨rfl, hmore⟩ := word_cons.mp himport
      exact .inl ⟨_, rfl, hmore⟩
  | sourceDot dots names =>
    obtain ⟨⟨name, rfl⟩, hmore⟩ := name_cons.mp h
    exact .inl ⟨_, rfl, hmore⟩
  | pick origin picks =>
    obtain ⟨⟨name, rfl⟩, hmore⟩ := name_cons.mp ((node_singleton rfl).mp h)
    exact .inl ⟨_, rfl, hmore⟩
  | picked origin picks name =>
    rcases optional_iff.mp h with has | hmore
    · obtain ⟨rfl, hrest⟩ := word_cons.mp has
      exact .inl ⟨_, rfl, hrest⟩
    · exact (Picked.plain picks name).goes hmore
  | pickAs origin picks name =>
    obtain ⟨⟨new, rfl⟩, hmore⟩ := name_cons.mp h
    exact .inl ⟨_, rfl, hmore⟩
  | pickedAs origin picks => exact (Picked.renamed picks).goes h

/-- Where no token is awaited, the import is complete. -/
theorem Awaits.exists_done {inner : ImportReading} (h : inner.Awaits forms []) :
    ∃ item, inner.done? = some item := by
  have hname : ∀ {forms : List Form}, ¬ Expands (.name :: forms) [] := fun h =>
    terminal_notMem h .name List.mem_cons_self
  have himport : ∀ {forms : List Form} {before : Form},
      ¬ Expands (before :: afterOrigin forms) [] := fun h =>
    terminal_notMem h (.word .importWord) (List.mem_cons_of_mem _ List.mem_cons_self)
  cases inner with
  | plain => exact absurd ((node_singleton rfl).mp h) hname
  | plainPath names => exact ⟨_, rfl⟩
  | plainDot names => exact absurd h hname
  | plainAs names => exact absurd h hname
  | plainDone names new => exact ⟨_, rfl⟩
  | source => exact absurd h himport
  | sourceDots count =>
    rcases h with h | h
    · exact absurd h himport
    · exact absurd List.mem_cons_self (terminal_notMem h (.word .importWord))
  | sourcePath dots names => exact absurd h himport
  | sourceDot dots names => exact absurd h hname
  | pick origin picks => exact absurd ((node_singleton rfl).mp h) hname
  | picked origin picks name => exact ⟨_, rfl⟩
  | pickAs origin picks name => exact absurd h hname
  | pickedAs origin picks => exact ⟨_, rfl⟩

end ImportReading

end Interpose
