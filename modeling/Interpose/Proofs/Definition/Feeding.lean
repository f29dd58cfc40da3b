import Interpose.Definition.Parse
import Interpose.Proofs.Definition.Printer
import Interpose.Proofs.Definition.Relocation
import Interpose.Proofs.Source.Layout

/-!
# Reading what is printed

A reading goes over printed text as the printed constructs tell. Every lemma has the same shape: to
read a construct and the text after it, it is enough to read the text after it from the state in
which the construct is complete. All tokens stand at one place, since places do not matter here.
-/

namespace Interpose

open Source

/-- The function that moves every span to one place. -/
def Span.moveTo (place : Place) (_ : Span) : Span := .ofPlace place

/-- Going on over a text, with all its tokens at one place, a reading gives a definition. -/
def Reading.Reads (place : Place) (definition : Definition Fenced) (mode : Mode) (cs : List Char)
    (reading : Reading) : Prop :=
  ∃ last, Feeds (fun reading token => reading.step token place) mode cs reading last ∧
    last.done? = some definition

variable {place : Place} {definition : Definition Fenced} {mode : Mode} {rest : List Char}
  {reading next : Reading}

namespace Reading.Reads

/-- A token that is munched is read first. -/
theorem munch {cs : List Char} {token : Token} (hmunch : Source.munch mode cs = some (token, rest))
    (hstep : reading.step token place = some next)
    (h : next.Reads place definition (.after token) rest) :
    reading.Reads place definition mode cs := by
  obtain ⟨last, hfeeds, hdone⟩ := h
  exact ⟨last, .munch hmunch hstep hfeeds, hdone⟩

/-- A blank before a text is ignored. -/
theorem space {c : Char} (hc : isSpace c) (h : reading.Reads place definition mode rest) :
    reading.Reads place definition mode (c :: rest) := by
  obtain ⟨last, hfeeds, hdone⟩ := h
  exact ⟨last, hfeeds.space hc, hdone⟩

/-- A mark is read where an operator is looked for. -/
theorem mark (mark : Mark) (hstep : reading.step (.mark mark) place = some next)
    (h : next.Reads place definition (.after (.mark mark)) rest) :
    reading.Reads place definition .operator (mark.spelling ++ rest) :=
  .munch (munch_mark mark rest) hstep h

/-- A keyword is read where an operator is looked for. -/
theorem word (word : Keyword) (hstep : reading.step (.word word) place = some next)
    (h : next.Reads place definition (.after (.word word)) rest) :
    reading.Reads place definition .operator (word.spelling ++ rest) :=
  .munch (munch_word word rest) hstep h

/-- A closing parenthesis is read where an operand is looked for. -/
theorem closeParen (hstep : reading.step (.mark .closeParen) place = some next)
    (h : next.Reads place definition .operator rest) :
    reading.Reads place definition .operand (')' :: rest) :=
  .munch (munch_closeParen rest) hstep h

/-- A name is read where an operand is looked for. -/
theorem name {name : String} (hmode : mode ≠ .operator) (hname : isName name.toList)
    (hrest : EndsName rest)
    (hmodule : mode = .sourceRest → name.toList ≠ Keyword.importWord.spelling)
    (hstep : reading.step (.name name) place = some next)
    (h : next.Reads place definition .operator rest) :
    reading.Reads place definition mode (name.toList ++ rest) := by
  have hmunch := munch_name hmode hname hrest hmodule
  rw [String.ofList_toList] at hmunch
  exact .munch hmunch hstep h

end Reading.Reads

/-- A text that begins with a character which goes on with no name. -/
theorem endsName_cons {c : Char} (hc : isNameRest c = false) (cs : List Char) :
    EndsName (c :: cs) := by
  intro d hd
  obtain rfl : c = d := by simpa using hd
  exact hc

/-- Whatever no name goes on with ends a number, unless it is a dot. -/
theorem endsNumber_cons {c : Char} (hc : isNameRest c = false) (hne : c ≠ '.') (cs : List Char) :
    EndsNumber (c :: cs) := ⟨endsName_cons hc cs, by simpa using hne⟩

/-- An inner reading is carried along by the whole reading. -/
def Carries {Inner : Type} (place : Place) (step : Token → Place → Inner → Option Inner)
    (carry : Inner → Reading) : Prop :=
  ∀ token inner next, step token place inner = some next →
    (carry inner).step token place = some (carry next)

/-! ## Dotted names -/

/-- The names after the first one of a dotted name, each with the point before it. -/
theorem toList_intercalate_point (first : String) (names : List String) :
    (".".intercalate (first :: names)).toList =
      first.toList ++ names.flatMap fun name => '.' :: name.toList := by
  induction names generalizing first with
  | nil => simp
  | cons name names ih =>
    rw [String.intercalate_cons_cons, String.toList_append, String.toList_append, ih]
    simp

/-- A name ends where a dot or the end of a path follows. -/
theorem endsName_flatMap_point (names : List String) (hrest : EndsName rest) :
    EndsName ((names.flatMap fun name => '.' :: name.toList) ++ rest) := by
  cases names with
  | nil => simpa using hrest
  | cons name names => exact endsName_cons (by decide) _

/-- Further names of a dotted name are read one after the other. -/
theorem reads_points (named dotted : List String → Reading)
    (hdot : ∀ names, (named names).step (.mark .dot) place = some (dotted names))
    (hname : ∀ names name, (dotted names).step (.name name) place = some (named (names ++ [name])))
    {names : List String} (hnames : ∀ name ∈ names, isName name.toList) (hrest : EndsName rest)
    (read : List String) (h : (named (read ++ names)).Reads place definition .operator rest) :
    (named read).Reads place definition .operator
      ((names.flatMap fun name => '.' :: name.toList) ++ rest) := by
  induction names generalizing read with
  | nil => simpa using h
  | cons name names ih =>
    have hread : (named (read ++ [name] ++ names)).Reads place definition .operator rest := by
      simpa using h
    have hmore : ∀ other ∈ names, isName other.toList := fun other hmem =>
      hnames other (List.mem_cons_of_mem _ hmem)
    have htail := ih hmore (read ++ [name]) hread
    rw [List.flatMap_cons, List.append_assoc, List.cons_append]
    exact .mark .dot (hdot read) (.name (by decide) (hnames name List.mem_cons_self)
      (endsName_flatMap_point names hrest) (by simp [Mode.after]) (hname read name) htail)

/-- A dotted name is read from the state before it. -/
theorem reads_dotted (named dotted : List String → Reading)
    (hstart : ∀ name, reading.step (.name name) place = some (named [name]))
    (hdot : ∀ names, (named names).step (.mark .dot) place = some (dotted names))
    (hname : ∀ names name, (dotted names).step (.name name) place = some (named (names ++ [name])))
    {names : List String} (hne : names ≠ []) (hnames : ∀ name ∈ names, isName name.toList)
    (hrest : EndsName rest) (hmode : mode ≠ .operator)
    (hmodule : mode = .sourceRest →
      ∀ name ∈ names.head?, name.toList ≠ Keyword.importWord.spelling)
    (h : (named names).Reads place definition .operator rest) :
    reading.Reads place definition mode ((".".intercalate names).toList ++ rest) := by
  obtain ⟨first, names, rfl⟩ := List.exists_cons_of_ne_nil hne
  rw [toList_intercalate_point, List.append_assoc]
  refine .name hmode (hnames first List.mem_cons_self) (endsName_flatMap_point names hrest)
    (fun hm => hmodule hm first rfl) (hstart first) ?_
  have hmore := fun name hmem => hnames name (List.mem_cons_of_mem _ hmem)
  exact reads_points named dotted hdot hname hmore hrest [first] h

/-! ## Lists -/

/-- Items with a comma and a space between them are read one after the other. What is read of an
item is added to what is read before it. -/
theorem reads_separated {Item Result : Type} (text : Item → String) (result : Item → Result)
    (begins : List Result → Reading) (After : List Result → Reading → Prop)
    (hcomma : ∀ read next, After read next →
      next.step (.mark .comma) place = some (begins read))
    {first : Item} {items : List Item}
    (hitems : ∀ item ∈ first :: items, ∀ read rest, EndsNumber rest →
      (∀ next, After (read ++ [result item]) next → next.Reads place definition .operator rest) →
      (begins read).Reads place definition .operand ((text item).toList ++ rest))
    (read : List Result) (hrest : EndsNumber rest)
    (h : ∀ next, After (read ++ (first :: items).map result) next →
      next.Reads place definition .operator rest) :
    (begins read).Reads place definition .operand
      ((", ".intercalate ((first :: items).map text)).toList ++ rest) := by
  induction items generalizing first read with
  | nil => exact hitems first List.mem_cons_self read rest hrest h
  | cons item items ih =>
    have hsplit : (", ".intercalate ((first :: item :: items).map text)).toList ++ rest =
        (text first).toList ++ (',' :: ' ' ::
          ((", ".intercalate ((item :: items).map text)).toList ++ rest)) := by
      simp [String.intercalate_cons_cons]
    rw [hsplit]
    refine hitems first List.mem_cons_self read _ (endsNumber_cons (by decide) (by decide) _)
      fun next hnext => ?_
    refine .mark .comma (hcomma _ next hnext) (.space (by decide) ?_)
    refine ih (fun item hmem => hitems item (List.mem_cons_of_mem _ hmem)) _ fun next hnext => ?_
    refine h next ?_
    simpa using hnext

/-! ## Types -/

/-- A type is complete within open ones. -/
inductive TypeReading.Settled (outer : List OpenType) : TypeExpr → TypeReading → Prop
  | path (p : Path) : Settled outer p.type (.path outer p)
  | closed (type : TypeExpr) : Settled outer type (.closed outer type)

namespace TypeReading.Settled

variable {open' : OpenType} {outer : List OpenType} {type : TypeExpr} {inner : TypeReading}

/-- After a complete argument of a type, a comma makes room for another one. -/
theorem comma (h : Settled (open' :: outer) type inner) :
    inner.step (.mark .comma) place = some (.start (open'.add type :: outer)) := by
  cases h <;> rfl

/-- A closing bracket completes the type around a complete argument. -/
theorem closeBracket (h : Settled (open' :: outer) type inner) :
    inner.step (.mark .closeBracket) place = some (.closed outer (open'.close type)) := by
  cases h <;> rfl

/-- A type within no other one is complete. -/
theorem done? (h : Settled [] type inner) : inner.done? = some type := by
  cases h <;> rfl

/-- Nothing but a further name or an argument goes on with a type. -/
theorem step_eq_none (h : Settled [] type inner) (place : Place) (token : Token)
    (hdot : token ≠ .mark .dot)
    (hbracket : token ≠ .mark .openBracket) : inner.step token place = none := by
  cases h with
  | path p =>
    cases token with
    | mark mark => cases mark <;> simp_all [TypeReading.step]
    | _ => rfl
  | closed type =>
    cases token with
    | mark mark => cases mark <;> rfl
    | _ => rfl

end TypeReading.Settled

/-- The arguments of a type are written as every list of types is. -/
theorem TypeExpr.toList_canonicalRest (arg : TypeExpr) (args : List TypeExpr) :
    (", ".intercalate ((arg :: args).map (·.canonical))).toList =
      arg.canonical.toList ++ (canonicalRest args).toList := by
  induction args generalizing arg with
  | nil => simp [canonicalRest]
  | cons next args ih =>
    have hcons : ((arg :: next :: args).map (·.canonical)) =
        arg.canonical :: (next :: args).map (·.canonical) := rfl
    rw [hcons, List.map_cons, String.intercalate_cons_cons, ← List.map_cons,
      String.toList_append, ih]
    simp [canonicalRest]

/-- A type is read within open ones, whatever follows it. -/
def TypeReads (place : Place) (definition : Definition Fenced) (carry : TypeReading → Reading)
    (type : TypeExpr) : Prop :=
  ∀ outer rest, EndsName rest →
    (∀ inner, TypeReading.Settled outer (type.mapSpan (Span.moveTo place)) inner →
      (carry inner).Reads place definition .operator rest) →
    (carry (.start outer)).Reads place definition .operand (type.canonical.toList ++ rest)

section

variable {carry : TypeReading → Reading} (hcarry : Carries place TypeReading.step carry)
include hcarry

/-- The arguments of a type are read one after the other up to the bracket. -/
theorem reads_typeArgs {args : List TypeExpr} (hne : args ≠ [])
    (hargs : ∀ arg ∈ args, TypeReads place definition carry arg) (p : Path)
    (outer : List OpenType)
    (h : (carry (.closed outer ⟨p.text, args.map (·.mapSpan (Span.moveTo place)), p.span⟩)).Reads
      place definition .operator rest) :
    (carry (.start (⟨p, []⟩ :: outer))).Reads place definition .operand
      ((", ".intercalate (args.map (·.canonical))).toList ++ ']' :: rest) := by
  obtain ⟨first, args, rfl⟩ := List.exists_cons_of_ne_nil hne
  have hrest : EndsNumber (']' :: rest) := endsNumber_cons (by decide) (by decide) _
  refine reads_separated TypeExpr.canonical (TypeExpr.mapSpan (Span.moveTo place))
    (fun read => carry (.start (⟨p, read⟩ :: outer)))
    (fun read next => ∃ before type inner, read = before ++ [type] ∧ next = carry inner ∧
      TypeReading.Settled (⟨p, before⟩ :: outer) type inner) ?_ ?_ [] hrest ?_
  · rintro _ _ ⟨before, type, inner, rfl, rfl, hinner⟩
    exact hcarry _ _ _ hinner.comma
  · intro arg hmem read rest hrest h
    exact hargs arg hmem _ _ hrest.1 fun inner hinner => h _ ⟨read, _, inner, rfl, rfl, hinner⟩
  · rintro _ ⟨before, type, inner, hread, rfl, hinner⟩
    rw [List.nil_append] at hread
    rw [hread] at h
    exact .mark .closeBracket (hcarry _ _ _ hinner.closeBracket) h

/-- A printed type is read. -/
theorem reads_type {type : TypeExpr} (htype : type.WellNamed) :
    TypeReads place definition carry type := by
  induction htype with
  | @mk name args span hname hargs ih =>
    intro outer rest hrest h
    obtain ⟨names, hne, hnames, rfl⟩ := hname
    have hpath : ∀ {rest : List Char}, EndsName rest →
        (carry (.path outer ⟨.ofPlace place, names⟩)).Reads place definition .operator rest →
        (carry (.start outer)).Reads place definition .operand
          ((".".intercalate names).toList ++ rest) := fun hrest h =>
      reads_dotted (fun names => carry (.path outer ⟨.ofPlace place, names⟩))
        (fun names => carry (.dot outer ⟨.ofPlace place, names⟩))
        (fun name => hcarry _ _ _ rfl) (fun names => hcarry _ _ _ rfl)
        (fun names name => hcarry _ _ _ rfl) hne hnames hrest (by decide) (by simp) h
    cases args with
    | nil =>
      refine hpath hrest (h _ ?_)
      rw [TypeExpr.mapSpan_mk]
      exact .path ⟨.ofPlace place, names⟩
    | cons arg args =>
      have hbracket :
          (TypeExpr.canonical ⟨".".intercalate names, arg :: args, span⟩).toList ++ rest =
          (".".intercalate names).toList ++ ('[' ::
            ((", ".intercalate ((arg :: args).map (·.canonical))).toList ++ ']' :: rest)) := by
        rw [TypeExpr.toList_canonicalRest]
        simp [TypeExpr.canonical]
      rw [hbracket]
      refine hpath (endsName_cons (by decide) _) ?_
      refine .mark .openBracket (hcarry _ _ _ rfl) ?_
      refine reads_typeArgs hcarry (by simp) ih ⟨.ofPlace place, names⟩ outer (h _ ?_)
      rw [TypeExpr.mapSpan_mk]
      exact .closed _

end

/-! ## Annotations -/

/-- Some arguments are complete within open calls, but their list is still open. -/
inductive ArgumentReading.Settled (outer : List OpenCall) :
    List Argument → ArgumentReading → Prop
  | path (read : List Argument) (p : Path) :
      Settled outer (read ++ [p.argument]) (.path outer read p)
  | value (args : List Argument) : Settled outer args (.value outer args)

namespace ArgumentReading.Settled

variable {outer : List OpenCall} {args : List Argument} {inner : ArgumentReading}

/-- After a complete argument of an annotation, a comma makes room for another one. -/
theorem comma (h : Settled outer args inner) :
    inner.step (.mark .comma) place = some (.start outer args) := by
  cases h <;> rfl

/-- A closing parenthesis closes a list of arguments. -/
theorem closeParen (h : Settled outer args inner) :
    inner.step (.mark .closeParen) place = some (close args outer) := by
  cases h <;> rfl

end ArgumentReading.Settled

/-- An argument is read within open calls, after other arguments and whatever follows it. -/
def ValueReads (place : Place) (definition : Definition Fenced) (carry : ArgumentReading → Reading)
    (kind : ArgumentKind) (text : String) : Prop :=
  ∀ outer read rest, EndsNumber rest →
    (∀ inner, ArgumentReading.Settled outer (read ++ [⟨kind, text, .ofPlace place⟩]) inner →
      (carry inner).Reads place definition .operator rest) →
    (carry (.start outer read)).Reads place definition .operand (text.toList ++ rest)

section

variable {carry : ArgumentReading → Reading} (hcarry : Carries place ArgumentReading.step carry)
include hcarry

/-- A list of arguments is read up to its parenthesis. -/
theorem reads_arguments {args : List Argument}
    (hargs : ∀ arg ∈ args, ValueReads place definition carry arg.kind arg.value)
    (outer : List OpenCall)
    (h : (carry (.close (args.map (·.mapSpan (Span.moveTo place))) outer)).Reads place definition
      .operator rest) :
    (carry (.start outer [])).Reads place definition .operand
      ((Argument.listText args).toList ++ ')' :: rest) := by
  cases args with
  | nil => exact .closeParen (hcarry _ _ _ rfl) h
  | cons first args =>
    have hrest : EndsNumber (')' :: rest) := endsNumber_cons (by decide) (by decide) _
    refine reads_separated Argument.value (Argument.mapSpan (Span.moveTo place))
      (fun read => carry (.start outer read))
      (fun read next => ∃ inner, next = carry inner ∧ ArgumentReading.Settled outer read inner)
      ?_ ?_ [] hrest ?_
    · rintro _ _ ⟨inner, rfl, hinner⟩
      exact hcarry _ _ _ hinner.comma
    · intro arg hmem read rest hrest h
      exact hargs arg hmem _ _ _ hrest fun inner hinner => h _ ⟨inner, rfl, hinner⟩
    · rintro _ ⟨inner, rfl, hinner⟩
      exact .mark .closeParen (hcarry _ _ _ hinner.closeParen) h

/-- A printed argument is read. -/
theorem reads_value {kind : ArgumentKind} {text : String} (hvalue : IsValue kind text) :
    ValueReads place definition carry kind text := by
  have hpath : ∀ {names : List String} {outer : List OpenCall} {read : List Argument}
      {rest : List Char}, names ≠ [] → (∀ name ∈ names, isName name.toList) → EndsName rest →
      (carry (.path outer read ⟨.ofPlace place, names⟩)).Reads place definition .operator rest →
      (carry (.start outer read)).Reads place definition .operand
        ((".".intercalate names).toList ++ rest) := fun {_ outer read _} hne hnames hrest h =>
    reads_dotted (fun names => carry (.path outer read ⟨.ofPlace place, names⟩))
      (fun names => carry (.dot outer read ⟨.ofPlace place, names⟩))
      (fun name => hcarry _ _ _ rfl) (fun names => hcarry _ _ _ rfl)
      (fun names name => hcarry _ _ _ rfl) hne hnames hrest (by decide) (by simp) h
  induction hvalue with
  | @path text htext =>
    intro outer read rest hrest h
    obtain ⟨names, hne, hnames, rfl⟩ := htext
    exact hpath hne hnames hrest.1 (h _ (.path read ⟨.ofPlace place, names⟩))
  | @quoted text htext =>
    intro outer read rest hrest h
    have hmunch := munch_quoted htext rest
    rw [String.ofList_toList] at hmunch
    exact .munch hmunch (hcarry _ _ _ rfl) (h _ (.value _))
  | @number text htext =>
    intro outer read rest hrest h
    have hmunch := munch_number htext hrest
    rw [String.ofList_toList] at hmunch
    exact .munch hmunch (hcarry _ _ _ rfl) (h _ (.value _))
  | @call path args hpathText hargs ih =>
    intro outer read rest hrest h
    obtain ⟨names, hne, hnames, rfl⟩ := hpathText
    have hparen : (".".intercalate names ++ "(" ++ Argument.listText args ++ ")").toList ++ rest =
        (".".intercalate names).toList ++
          ('(' :: ((Argument.listText args).toList ++ ')' :: rest)) := by
      simp
    rw [hparen]
    refine hpath hne hnames (endsName_cons (by decide) _) ?_
    refine .mark .openParen (hcarry _ _ _ rfl) ?_
    refine reads_arguments hcarry ih (⟨⟨.ofPlace place, names⟩, read⟩ :: outer) (h _ ?_)
    have hclose : OpenCall.close ⟨⟨.ofPlace place, names⟩, read⟩
        (args.map (·.mapSpan (Span.moveTo place))) = read ++ [⟨.call,
          ".".intercalate names ++ "(" ++ Argument.listText args ++ ")", .ofPlace place⟩] := by
      rw [OpenCall.close, Argument.listText_mapSpan]
      rfl
    rw [← hclose]
    exact .value _

end

/-- An annotation is complete, and only a further name or an argument list goes on with it. -/
structure AnnotationReading.Settled (place : Place) (note : Annotation)
    (inner : AnnotationReading) : Prop where
  done? : inner.done? = some note
  step_eq_none : ∀ token, token ≠ .mark .dot → token ≠ .mark .openParen →
    inner.step token place = none

/-- A path is an annotation without arguments. -/
theorem AnnotationReading.settled_path (span : Span) (p : Path) :
    Settled place ⟨p.text, none, span⟩ (.path span p) := by
  refine ⟨rfl, fun token hdot hparen => ?_⟩
  cases token with
  | mark mark => cases mark <;> simp_all [AnnotationReading.step]
  | _ => rfl

/-- A printed annotation is read after its sign. -/
theorem reads_annotation {carry : AnnotationReading → Reading}
    (hcarry : Carries place AnnotationReading.step carry) {note : Annotation}
    (hnote : note.WellFormed) (hrest : EndsName rest)
    (h : ∀ inner, AnnotationReading.Settled place (note.mapSpan (Span.moveTo place)) inner →
      (carry inner).Reads place definition .operator rest) :
    (carry (.start (.ofPlace place))).Reads place definition .operand
      (note.text.toList ++ rest) := by
  obtain ⟨name, arguments, span⟩ := note
  obtain ⟨⟨names, hne, hnames, rfl⟩, hargs⟩ := hnote
  have hpath : ∀ {rest : List Char}, EndsName rest →
      (carry (.path (.ofPlace place) ⟨.ofPlace place, names⟩)).Reads place definition .operator
        rest →
      (carry (.start (.ofPlace place))).Reads place definition .operand
        ((".".intercalate names).toList ++ rest) := fun hrest h =>
    reads_dotted (fun names => carry (.path (.ofPlace place) ⟨.ofPlace place, names⟩))
      (fun names => carry (.dot (.ofPlace place) ⟨.ofPlace place, names⟩))
      (fun name => hcarry _ _ _ rfl) (fun names => hcarry _ _ _ rfl)
      (fun names name => hcarry _ _ _ rfl) hne hnames hrest (by decide) (by simp) h
  cases arguments with
  | none =>
    rw [text_of_bare rfl]
    exact hpath hrest (h _ (AnnotationReading.settled_path (.ofPlace place)
      ⟨.ofPlace place, names⟩))
  | some args =>
    rw [toList_text_append rfl]
    refine hpath (endsName_cons (by decide) _) ?_
    refine .mark .openParen (hcarry _ _ _ rfl) ?_
    have hinner : Carries place ArgumentReading.step fun inner =>
        carry (.arguments (.ofPlace place) ⟨.ofPlace place, names⟩ inner) := by
      intro token inner next hstep
      refine hcarry _ _ _ ?_
      simp [AnnotationReading.step, hstep]
    refine reads_arguments hinner (fun arg hmem => reads_value hinner (hargs args rfl arg hmem)) []
      (h _ ⟨rfl, fun token _ _ => rfl⟩)

/-! ## Imports -/

/-- An import is complete, and only parts of an import go on with it. -/
structure ImportReading.Settled (item : Import) (inner : ImportReading) : Prop where
  done? : inner.done? = some item
  step_eq_none : ∀ token, token ≠ .mark .dot → token ≠ .mark .comma → token ≠ .word .asWord →
    inner.step token = none

/-- A module is a plain import without a new name. -/
theorem ImportReading.settled_plainPath (names : List String) :
    Settled ⟨plainText (".".intercalate names)⟩ (.plainPath names) := by
  refine ⟨rfl, fun token hdot hcomma has => ?_⟩
  cases token with
  | word word => cases word <;> simp_all [ImportReading.step]
  | mark mark => cases mark <;> simp_all [ImportReading.step]
  | _ => rfl

/-- Some names to import are complete. -/
inductive ImportReading.Picked (origin : String) : List String → ImportReading → Prop
  | plain (picks : List String) (name : String) :
      Picked origin (picks ++ [name]) (.picked origin picks name)
  | renamed (picks : List String) : Picked origin picks (.pickedAs origin picks)

namespace ImportReading.Picked

variable {origin : String} {picks : List String} {inner : ImportReading}

/-- After a name that is imported, a comma makes room for another one. -/
theorem comma (h : Picked origin picks inner) :
    inner.step (.mark .comma) = some (.pick origin picks) := by
  cases h <;> rfl

/-- After a name that is imported, the import is complete. -/
theorem settled (h : Picked origin picks inner) : Settled ⟨pickText origin picks⟩ inner where
  done? := by cases h <;> rfl
  step_eq_none token hdot hcomma has := by
    cases h with
    | plain picks name =>
      cases token with
      | word word => cases word <;> simp_all [ImportReading.step]
      | mark mark => cases mark <;> simp_all [ImportReading.step]
      | _ => rfl
    | renamed picks =>
      cases token with
      | mark mark => cases mark <;> simp_all [ImportReading.step]
      | _ => rfl

end ImportReading.Picked

section

variable {carry : ImportReading → Reading}
  (hcarry : Carries place (fun token _ => ImportReading.step token) carry)
include hcarry

/-- A name to import is read. -/
theorem reads_pick {origin pick : String} (hpick : IsPick pick) (picks : List String)
    (hrest : EndsName rest)
    (h : ∀ inner, ImportReading.Picked origin (picks ++ [pick]) inner →
      (carry inner).Reads place definition .operator rest) :
    (carry (.pick origin picks)).Reads place definition .operand (pick.toList ++ rest) := by
  cases hpick with
  | @plain name hname =>
    exact .name (by decide) hname hrest (by simp) (hcarry _ _ _ rfl) (h _ (.plain picks pick))
  | @renamed name new hname hnew =>
    have htext : (aliasText name new).toList ++ rest =
        name.toList ++ (' ' :: (Keyword.asWord.spelling ++ (' ' :: (new.toList ++ rest)))) := by
      simp [aliasText, Keyword.spelling]
    rw [htext]
    refine .name (by decide) hname (endsName_cons (by decide) _) (by simp) (hcarry _ _ _ rfl) ?_
    refine .space (by decide) (.word .asWord (hcarry _ _ _ rfl) (.space (by decide) ?_))
    exact .name (by decide) hnew hrest (by simp [Mode.after]) (hcarry _ _ _ rfl) (h _ (.renamed _))

/-- Names to import are read one after the other. -/
theorem reads_picks {origin : String} {picks : List String} (hne : picks ≠ [])
    (hpicks : ∀ pick ∈ picks, IsPick pick) (hrest : EndsNumber rest)
    (h : ∀ inner, ImportReading.Picked origin picks inner →
      (carry inner).Reads place definition .operator rest) :
    (carry (.pick origin [])).Reads place definition .operand
      ((", ".intercalate picks).toList ++ rest) := by
  obtain ⟨first, picks, rfl⟩ := List.exists_cons_of_ne_nil hne
  rw [← List.map_id (first :: picks)] at h ⊢
  refine reads_separated id id (fun read => carry (.pick origin read))
    (fun read next => ∃ inner, next = carry inner ∧ ImportReading.Picked origin read inner) ?_ ?_ []
    hrest ?_
  · rintro _ _ ⟨inner, rfl, hinner⟩
    exact hcarry _ _ _ hinner.comma
  · intro pick hmem read rest hrest h
    refine reads_pick hcarry (hpicks pick hmem) read hrest.1 fun inner hinner => ?_
    exact h _ ⟨inner, rfl, hinner⟩
  · rintro _ ⟨inner, rfl, hinner⟩
    exact h inner hinner

/-- The module of a selective import is read up to the keyword after it. -/
theorem reads_origin {origin : String} (horigin : IsOrigin origin)
    (h : (carry (.pick origin [])).Reads place definition .operand rest)
    (hrest : EndsName rest) :
    (carry .source).Reads place definition .source
      (origin.toList ++ ' ' :: (Keyword.importWord.spelling ++ rest)) := by
  have himport : ∀ dots names, ImportReading.sourceText dots names = origin →
      (carry (.sourcePath dots names)).Reads place definition .operator
        (' ' :: (Keyword.importWord.spelling ++ rest)) := by
    rintro dots names rfl
    exact .space (by decide) (.word .importWord (hcarry _ _ _ rfl) h)
  have hpath : ∀ {inner : ImportReading} {mode : Mode} (dots : Nat) {names : List String},
      (∀ name, inner.step (.name name) = some (.sourcePath dots [name])) →
      names ≠ [] → (∀ name ∈ names, isName name.toList) → mode ≠ .operator →
      (mode = .sourceRest → ∀ name ∈ names.head?, name.toList ≠ Keyword.importWord.spelling) →
      ImportReading.sourceText dots names = origin →
      (carry inner).Reads place definition mode ((".".intercalate names).toList ++
        ' ' :: (Keyword.importWord.spelling ++ rest)) :=
    fun dots names hstart hne hnames hmode hmodule htext =>
      reads_dotted (fun names => carry (.sourcePath dots names))
        (fun names => carry (.sourceDot dots names))
        (fun name => hcarry _ _ _ (hstart name)) (fun names => hcarry _ _ _ rfl)
        (fun names name => hcarry _ _ _ rfl) hne hnames (endsName_cons (by decide) _) hmode hmodule
        (himport dots _ htext)
  cases horigin with
  | @absolute names hne hnames =>
    have htext : (ImportReading.sourceText 0 names).toList = (".".intercalate names).toList := by
      simp [ImportReading.sourceText]
    rw [htext]
    exact hpath 0 (fun name => rfl) hne hnames (by decide) (by simp) rfl
  | @relative dots names hdots hnames hfirst =>
    obtain ⟨count, rfl⟩ : ∃ count, dots = count + 1 := ⟨dots - 1, by omega⟩
    have htext : (ImportReading.sourceText (count + 1) names).toList =
        List.replicate (count + 1) '.' ++ (".".intercalate names).toList := by
      simp [ImportReading.sourceText]
    rw [htext, List.append_assoc]
    cases names with
    | nil =>
      refine .munch (munch_dots count (by simp)) (hcarry _ _ _ rfl) ?_
      rw [String.intercalate_nil]
      exact .space (by decide) (.munch (munch_importWord hrest) (hcarry _ _ _ rfl) h)
    | cons first names =>
      have hname := hnames first List.mem_cons_self
      have hhead : ((".".intercalate (first :: names)).toList ++
          ' ' :: (Keyword.importWord.spelling ++ rest)).head? ≠ some '.' := by
        rw [toList_intercalate_point]
        cases hf : first.toList with
        | nil => simp [hf, isName] at hname
        | cons c cs =>
          rw [hf] at hname
          rintro hc
          obtain rfl : c = '.' := by simpa using hc
          simp [isName, isNameStart] at hname
      refine .munch (munch_dots count hhead) (hcarry _ _ _ rfl) ?_
      exact hpath (count + 1) (fun name => rfl) (by simp) hnames (by simp [Mode.after])
        (fun _ => hfirst) rfl

/-- A printed import is read. -/
theorem reads_import {text : String} (himport : IsImport text) (hrest : EndsNumber rest)
    (hplain : reading.step (.word .importWord) place = some (carry .plain))
    (hfrom : reading.step (.word .fromWord) place = some (carry .source))
    (h : ∀ inner, ImportReading.Settled ⟨text⟩ inner →
      (carry inner).Reads place definition .operator rest) :
    reading.Reads place definition .operator (text.toList ++ rest) := by
  have hmodule : ∀ {names : List String} {rest : List Char}, names ≠ [] →
      (∀ name ∈ names, isName name.toList) → EndsName rest →
      (carry (.plainPath names)).Reads place definition .operator rest →
      (carry .plain).Reads place definition .operand ((".".intercalate names).toList ++ rest) :=
    fun hne hnames hrest h =>
      reads_dotted (fun names => carry (.plainPath names))
        (fun names => carry (.plainDot names))
        (fun name => hcarry _ _ _ rfl) (fun names => hcarry _ _ _ rfl)
        (fun names name => hcarry _ _ _ rfl) hne hnames hrest (by decide) (by simp) h
  cases himport with
  | @plain module hmod =>
    obtain ⟨names, hne, hnames, rfl⟩ := hmod
    have htext : (ImportReading.plainText (".".intercalate names)).toList ++ rest =
        Keyword.importWord.spelling ++ (' ' :: ((".".intercalate names).toList ++ rest)) := by
      simp [ImportReading.plainText, Keyword.spelling]
    rw [htext]
    refine .word .importWord hplain (.space (by decide) ?_)
    exact hmodule hne hnames hrest.1 (h _ (ImportReading.settled_plainPath names))
  | @renamed module new hmod hnew =>
    obtain ⟨names, hne, hnames, rfl⟩ := hmod
    have htext : (ImportReading.plainText (aliasText (".".intercalate names) new)).toList ++ rest =
        Keyword.importWord.spelling ++ (' ' :: ((".".intercalate names).toList ++
          (' ' :: (Keyword.asWord.spelling ++ (' ' :: (new.toList ++ rest)))))) := by
      simp [ImportReading.plainText, aliasText, Keyword.spelling]
    rw [htext]
    refine .word .importWord hplain (.space (by decide)
      (hmodule hne hnames (endsName_cons (by decide) _) (.space (by decide) ?_)))
    refine .word .asWord (hcarry _ _ _ rfl) (.space (by decide) ?_)
    exact .name (by decide) hnew hrest.1 (by simp [Mode.after]) (hcarry _ _ _ rfl)
      (h _ ⟨rfl, fun token _ _ _ => rfl⟩)
  | @picked origin picks horigin hne hpicks =>
    have htext : (ImportReading.pickText origin picks).toList ++ rest =
        Keyword.fromWord.spelling ++ (' ' :: (origin.toList ++ ' ' ::
          (Keyword.importWord.spelling ++ (' ' ::
            ((", ".intercalate picks).toList ++ rest))))) := by
      simp [ImportReading.pickText, Keyword.spelling]
    rw [htext]
    refine .word .fromWord hfrom (.space (by decide) (reads_origin hcarry horigin ?_
      (endsName_cons (by decide) _)))
    exact .space (by decide) (reads_picks hcarry hne hpicks hrest fun inner hinner =>
      h inner hinner.settled)

end

end Interpose
