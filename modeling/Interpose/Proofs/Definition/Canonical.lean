import Interpose.Proofs.Definition.Feeding
import Interpose.Proofs.Definition.Reserved
import Interpose.Proofs.Service.Spans
import Interpose.Proofs.Wrapper.Single

/-!
# Types are told apart by their texts

The text of a type ends at a mark that its names do not hold. So a type can be read off every text
that begins with it, and with it what follows: two types have one text when they agree but for their
spans. The same holds of parameters, and of lists of both.
-/

namespace Interpose

open Source Text

/-! ## Texts that end by themselves -/

section

variable {α β : Type}

/-- A thing that can be read off the front of a text, with what follows it, where nothing follows
but what may stop its text. -/
def ReadOff (text : α → List Char) (shown : α → β) (allowed : α → Prop)
    (stops : List Char → Prop) (a : α) : Prop :=
  ∀ b, allowed b → ∀ rest more, stops rest → stops more →
    text a ++ rest = text b ++ more → shown a = shown b ∧ rest = more

/-- Things after others in a list, each after a comma and a blank. -/
def furtherText (text : α → List Char) (items : List α) : List Char :=
  items.flatMap fun item => ',' :: ' ' :: text item

/-- Each further item is written after a comma and a blank. -/
theorem furtherText_cons (text : α → List Char) (item : α) (items : List α) (rest : List Char) :
    furtherText text (item :: items) ++ rest =
      ',' :: ' ' :: (text item ++ (furtherText text items ++ rest)) := by
  simp [furtherText]

/-- Things in a list are written with a comma and a blank between them. -/
theorem toList_intercalate_cons (text : α → String) (item : α) (items : List α) :
    (", ".intercalate ((item :: items).map text)).toList =
      (text item).toList ++ furtherText (fun item => (text item).toList) items := by
  induction items generalizing item with
  | nil => simp [furtherText]
  | cons next items ih =>
    rw [List.map_cons, List.map_cons, String.intercalate_cons_cons, ← List.map_cons,
      String.toList_append, ih]
    simp [furtherText]

variable {text : α → List Char} {shown : α → β} {allowed : α → Prop} {stops : List Char → Prop}

/-- What stops the text of a thing stands after it in a list that a mark closes. -/
theorem stops_furtherText {close : Char} (hclose : ∀ rest, stops (close :: rest))
    (hcomma : ∀ rest, stops (',' :: rest)) (items : List α) (rest : List Char) :
    stops (furtherText text items ++ close :: rest) := by
  cases items with
  | nil => exact hclose rest
  | cons item items =>
    rw [furtherText_cons]
    exact hcomma _

/-- Things that can be read off can be read off one after the other, up to the mark that closes
their list. -/
theorem furtherText_inj {close : Char} (hne : close ≠ ',') (hclose : ∀ rest, stops (close :: rest))
    (hcomma : ∀ rest, stops (',' :: rest)) {items others : List α}
    (hitems : ∀ item ∈ items, ReadOff text shown allowed stops item)
    (hothers : ∀ other ∈ others, allowed other) {rest more : List Char}
    (h : furtherText text items ++ close :: rest = furtherText text others ++ close :: more) :
    items.map shown = others.map shown ∧ rest = more := by
  induction items generalizing others with
  | nil =>
    cases others with
    | nil => exact ⟨rfl, (List.cons.inj h).2⟩
    | cons other others =>
      rw [furtherText_cons] at h
      exact absurd (List.cons.inj h).1 hne
  | cons item items ih =>
    obtain ⟨hitem, hitems⟩ := List.forall_mem_cons.mp hitems
    cases others with
    | nil =>
      rw [furtherText_cons] at h
      exact absurd (List.cons.inj h).1.symm hne
    | cons other others =>
      obtain ⟨hother, hothers⟩ := List.forall_mem_cons.mp hothers
      rw [furtherText_cons, furtherText_cons] at h
      have hfront := (List.cons.inj (List.cons.inj h).2).2
      obtain ⟨hshown, hafter⟩ := hitem other hother _ _ (stops_furtherText hclose hcomma items rest)
        (stops_furtherText hclose hcomma others more) hfront
      obtain ⟨hmap, hrest⟩ := ih hitems hothers hafter
      exact ⟨by rw [List.map_cons, List.map_cons, hshown, hmap], hrest⟩

end

/-! ## Types -/

/-- A mark that ends a name. -/
def isMark (c : Char) : Bool := ['(', ')', '[', ']', ',', ':', ' '].contains c

/-- A name that holds no mark. -/
structure IsUnmarkedName (name : String) : Prop where
  /-- It is not empty. -/
  ne_nil : name.toList ≠ []
  /-- None of its characters is a mark. -/
  plain : ∀ c ∈ name.toList, isMark c = false

/-- An unmarked name has characters, and none of them is a mark. -/
theorem isUnmarkedName_iff {name : String} : IsUnmarkedName name ↔
    name.toList ≠ [] ∧ name.toList.all (fun c => !isMark c) = true := by
  rw [List.all_eq_true]
  simp only [Bool.not_eq_true']
  exact ⟨fun h => ⟨h.ne_nil, h.plain⟩, fun h => ⟨h.1, h.2⟩⟩

instance (name : String) : Decidable (IsUnmarkedName name) :=
  decidable_of_iff _ isUnmarkedName_iff.symm

/-- An unmarked name begins with something else than a mark. -/
theorem IsUnmarkedName.exists_cons {name : String} (h : IsUnmarkedName name) :
    ∃ c cs, name.toList = c :: cs ∧ isMark c = false := by
  obtain ⟨c, cs, hname⟩ := List.exists_cons_of_ne_nil h.ne_nil
  exact ⟨c, cs, hname, h.plain c (by simp [hname])⟩

/-- What holds of the first character of a text, if it has one. -/
theorem forall_head?_cons {P : Char → Prop} {c : Char} (h : P c) (rest : List Char) :
    ∀ d ∈ (c :: rest).head?, P d := by
  simpa using h

/-- A text after a name, which begins with a mark if with anything. -/
def EndsAtMark (rest : List Char) : Prop := ∀ c ∈ rest.head?, isMark c = true

/-- An unmarked name can be read off what follows it. -/
theorem IsUnmarkedName.append_inj {name other : String} (h : IsUnmarkedName name)
    (hother : IsUnmarkedName other) {rest more : List Char} (hrest : EndsAtMark rest)
    (hmore : EndsAtMark more) (heq : name.toList ++ rest = other.toList ++ more) :
    name = other ∧ rest = more := by
  have hall : ∀ {name : String}, IsUnmarkedName name → name.toList.all (fun c => !isMark c) :=
    fun hname => (isUnmarkedName_iff.mp hname).2
  have hhead : ∀ {rest : List Char}, EndsAtMark rest → ∀ c ∈ rest.head?, (!isMark c) = false := by
    intro rest hrest c hc
    simp [hrest c hc]
  constructor
  · have htake := congrArg (List.takeWhile fun c => !isMark c) heq
    rw [takeWhile_append_of_head (hall h) (hhead hrest),
      takeWhile_append_of_head (hall hother) (hhead hmore)] at htake
    exact String.toList_inj.mp htake
  · have hdrop := congrArg (List.dropWhile fun c => !isMark c) heq
    rwa [dropWhile_append_of_head (hall h) (hhead hrest),
      dropWhile_append_of_head (hall hother) (hhead hmore)] at hdrop

/-- What may follow a type: any mark but the one that opens its arguments. -/
def StopsType (rest : List Char) : Prop := ∀ c ∈ rest.head?, isMark c = true ∧ c ≠ '['

theorem StopsType.endsAtMark {rest : List Char} (h : StopsType rest) : EndsAtMark rest :=
  fun c hc => (h c hc).1

theorem stopsType_nil : StopsType [] := fun _ hc => by cases hc

theorem stopsType_cons {c : Char} (h : isMark c = true ∧ c ≠ '[') (rest : List Char) :
    StopsType (c :: rest) :=
  forall_head?_cons h rest

namespace TypeExpr

/-- A type whose name, and the names of whose arguments, hold no mark. -/
inductive Unmarked : TypeExpr → Prop
  | mk {name : String} {args : List TypeExpr} {span : Span} (hname : IsUnmarkedName name)
      (hargs : ∀ arg ∈ args, Unmarked arg) : Unmarked ⟨name, args, span⟩

/-- The type without its spans. -/
def erase (type : TypeExpr) : TypeExpr := type.mapSpan fun _ => .none

/-- The arguments of a type in their brackets. -/
def brackets : List TypeExpr → List Char
  | [] => []
  | arg :: args =>
    '[' :: (arg.canonical.toList ++ (furtherText (·.canonical.toList) args ++ [']']))

/-- The arguments after the first one are written like further items. -/
theorem toList_canonicalRest_eq (args : List TypeExpr) :
    (canonicalRest args).toList = furtherText (·.canonical.toList) args := by
  induction args with
  | nil => rfl
  | cons arg args ih => simp [canonicalRest, furtherText, ih]

/-- A type is written as its name and then its arguments in brackets. -/
theorem toList_canonical (name : String) (args : List TypeExpr) (span : Span) :
    (canonical ⟨name, args, span⟩).toList = name.toList ++ brackets args := by
  cases args with
  | nil => simp [canonical, brackets]
  | cons arg args => simp [canonical, brackets, toList_canonicalRest_eq]

/-- A name ends where its arguments begin or where its type stops. -/
theorem endsAtMark_brackets (args : List TypeExpr) {rest : List Char} (h : StopsType rest) :
    EndsAtMark (brackets args ++ rest) := by
  cases args with
  | nil => exact h.endsAtMark
  | cons arg args => exact forall_head?_cons (by decide) _

theorem erase_mk (name : String) (args : List TypeExpr) (span : Span) :
    erase ⟨name, args, span⟩ = ⟨name, args.map erase, .none⟩ :=
  mapSpan_mk _ name args span

/-- Arguments can be read off their brackets, once each of them can. -/
theorem brackets_inj {args others : List TypeExpr}
    (hargs : ∀ arg ∈ args, ReadOff (·.canonical.toList) erase Unmarked StopsType arg)
    (hothers : ∀ other ∈ others, other.Unmarked) {rest more : List Char} (hrest : StopsType rest)
    (hmore : StopsType more) (h : brackets args ++ rest = brackets others ++ more) :
    args.map erase = others.map erase ∧ rest = more := by
  have hclose : ∀ rest, StopsType (']' :: rest) := stopsType_cons (by decide)
  have hcomma : ∀ rest, StopsType (',' :: rest) := stopsType_cons (by decide)
  cases args with
  | nil =>
    cases others with
    | nil => exact ⟨rfl, h⟩
    | cons other others =>
      obtain rfl : rest = brackets (other :: others) ++ more := h
      exact absurd rfl (hrest '[' rfl).2
  | cons arg args =>
    obtain ⟨harg, hargs⟩ := List.forall_mem_cons.mp hargs
    cases others with
    | nil =>
      obtain rfl : brackets (arg :: args) ++ rest = more := h
      exact absurd rfl (hmore '[' rfl).2
    | cons other others =>
      obtain ⟨hother, hothers⟩ := List.forall_mem_cons.mp hothers
      simp only [brackets, List.cons_append, List.append_assoc, List.nil_append] at h
      obtain ⟨hfirst, hmid⟩ := harg other hother _ _ (stops_furtherText hclose hcomma args rest)
        (stops_furtherText hclose hcomma others more) (List.cons.inj h).2
      obtain ⟨hmap, hend⟩ := furtherText_inj (by decide) hclose hcomma hargs hothers hmid
      exact ⟨by rw [List.map_cons, List.map_cons, hfirst, hmap], hend⟩

/-- A type can be read off every text that begins with it. -/
theorem Unmarked.readOff {type : TypeExpr} (h : type.Unmarked) :
    ReadOff (·.canonical.toList) erase Unmarked StopsType type := by
  induction h with
  | @mk name args span hname _ ih =>
    intro other hother rest more hrest hmore heq
    cases hother with
    | @mk name' others span' hname' hothers =>
      simp only [toList_canonical, List.append_assoc] at heq
      obtain ⟨rfl, hafter⟩ := hname.append_inj hname' (endsAtMark_brackets args hrest)
        (endsAtMark_brackets others hmore) heq
      obtain ⟨hmap, hend⟩ := brackets_inj ih hothers hrest hmore hafter
      exact ⟨by rw [erase_mk, erase_mk, hmap], hend⟩

/-- A type is written without its spans. -/
theorem canonical_eq_of_erase_eq {type other : TypeExpr} (h : type.erase = other.erase) :
    type.canonical = other.canonical := by
  have htext := congrArg canonical h
  rwa [erase, erase, canonical_mapSpan, canonical_mapSpan] at htext

/-- Types have one text exactly when they agree but for their spans. -/
theorem Unmarked.canonical_eq_iff {type other : TypeExpr} (h : type.Unmarked)
    (hother : other.Unmarked) : type.canonical = other.canonical ↔ type.erase = other.erase := by
  constructor
  · intro htext
    exact (h.readOff other hother [] [] stopsType_nil stopsType_nil (by simp [htext])).1
  · exact canonical_eq_of_erase_eq

end TypeExpr

/-! ## Dotted names -/

/-- A dotted name is a name, then further names after points. -/
theorem IsDotted.exists_toList_eq {path : String} (h : IsDotted path) :
    ∃ first : String, ∃ names : List String, isName first.toList ∧
      (∀ name ∈ names, isName name.toList) ∧
      path.toList = first.toList ++ names.flatMap fun name => '.' :: name.toList := by
  obtain ⟨names, hne, hnames, rfl⟩ := h
  obtain ⟨first, names, rfl⟩ := List.exists_cons_of_ne_nil hne
  obtain ⟨hfirst, hmore⟩ := List.forall_mem_cons.mp hnames
  exact ⟨first, names, hfirst, hmore, toList_intercalate_point first names⟩

/-- A dotted path is written with dots and characters of names. -/
theorem IsDotted.isNameRest_or_dot {path : String} (h : IsDotted path) :
    ∀ c ∈ path.toList, isNameRest c = true ∨ c = '.' := by
  obtain ⟨first, names, hfirst, hnames, hpath⟩ := h.exists_toList_eq
  intro c hc
  rw [hpath, List.mem_append, List.mem_flatMap] at hc
  rcases hc with hc | ⟨name, hname, hc⟩
  · exact .inl (isNameRest_of_isName hfirst hc)
  · rcases List.mem_cons.mp hc with hdot | hc
    · exact .inr hdot
    · exact .inl (isNameRest_of_isName (hnames name hname) hc)

/-- The characters of names are no marks. -/
theorem isMark_eq_false_of_isNameRest {c : Char} (h : isNameRest c = true) : isMark c = false := by
  have hmarks : ['(', ')', '[', ']', ',', ':', ' '].any isNameRest = false := by decide
  rw [isMark, List.contains_eq_mem, decide_eq_false_iff_not]
  intro hmem
  exact List.any_eq_false.mp hmarks c hmem h

theorem ne_nil_of_isName {cs : List Char} (h : isName cs) : cs ≠ [] := by
  rintro rfl
  cases h

/-- A name is unmarked. -/
theorem isUnmarkedName_of_isName {name : String} (h : isName name.toList) :
    IsUnmarkedName name where
  ne_nil := ne_nil_of_isName h
  plain _ hc := isMark_eq_false_of_isNameRest (isNameRest_of_isName h hc)

/-- A dotted name holds no mark. -/
theorem IsDotted.isUnmarkedName {path : String} (h : IsDotted path) : IsUnmarkedName path where
  ne_nil := by
    obtain ⟨first, names, hfirst, _, hpath⟩ := h.exists_toList_eq
    rw [hpath]
    exact List.append_ne_nil_of_left_ne_nil (ne_nil_of_isName hfirst) _
  plain c hc := by
    rcases h.isNameRest_or_dot c hc with hrest | rfl
    · exact isMark_eq_false_of_isNameRest hrest
    · decide

/-- A well-named type has unmarked names. -/
theorem TypeExpr.WellNamed.unmarked {type : TypeExpr} (h : type.WellNamed) : type.Unmarked := by
  induction h with
  | mk hname _ ih => exact .mk hname.isUnmarkedName ih

/-! ## Parameters -/

namespace Param

/-- A parameter that can be told from what stands around it. -/
structure Unmarked (param : Param) : Prop where
  /-- Its name holds no mark. -/
  name : IsUnmarkedName param.name
  /-- Neither do the names of its type. -/
  type : ∀ type ∈ param.type, type.Unmarked

/-- The parameter without its spans. -/
def erase (param : Param) : Param := param.mapSpan fun _ => .none

theorem erase_eq (param : Param) :
    param.erase = ⟨param.name, param.type.map TypeExpr.erase, .none⟩ := rfl

/-- What may follow a parameter. -/
def Stops (rest : List Char) : Prop := ∀ c ∈ rest.head?, c = ',' ∨ c = ')'

theorem stops_cons {c : Char} (h : c = ',' ∨ c = ')') (rest : List Char) : Stops (c :: rest) :=
  forall_head?_cons h rest

theorem Stops.stopsType {rest : List Char} (h : Stops rest) : StopsType rest := by
  intro c hc
  rcases h c hc with rfl | rfl <;> decide

/-- What stands after the name of a parameter. -/
def typeText (type : Option TypeExpr) : List Char :=
  match type with
  | none => []
  | some type => ':' :: ' ' :: type.canonical.toList

/-- A parameter is written as its name and then its type. -/
theorem toList_text (param : Param) :
    param.text.toList = param.name.toList ++ typeText param.type := by
  obtain ⟨name, type, span⟩ := param
  cases type with
  | none => simp [text, typeText]
  | some type => simp [text, typeText]

/-- The name of a parameter ends where its type begins or where the parameter stops. -/
theorem endsAtMark_typeText (type : Option TypeExpr) {rest : List Char} (h : Stops rest) :
    EndsAtMark (typeText type ++ rest) := by
  cases type with
  | none => exact h.stopsType.endsAtMark
  | some type => exact forall_head?_cons (by decide) _

/-- The type of a parameter can be read off what stands after its name. -/
theorem typeText_inj {type other : Option TypeExpr} (htype : ∀ one ∈ type, one.Unmarked)
    (hother : ∀ one ∈ other, one.Unmarked) {rest more : List Char} (hrest : Stops rest)
    (hmore : Stops more) (h : typeText type ++ rest = typeText other ++ more) :
    type.map TypeExpr.erase = other.map TypeExpr.erase ∧ rest = more := by
  cases type with
  | none =>
    cases other with
    | none => exact ⟨rfl, h⟩
    | some other =>
      obtain rfl : rest = typeText (some other) ++ more := h
      rcases hrest ':' rfl with hcolon | hcolon <;> cases hcolon
  | some type =>
    cases other with
    | none =>
      obtain rfl : typeText (some type) ++ rest = more := h
      rcases hmore ':' rfl with hcolon | hcolon <;> cases hcolon
    | some other =>
      obtain ⟨herase, hend⟩ := (htype type rfl).readOff other (hother other rfl) rest more
        hrest.stopsType hmore.stopsType (List.cons.inj (List.cons.inj h).2).2
      exact ⟨by rw [Option.map_some, Option.map_some, herase], hend⟩

/-- A parameter can be read off every text that begins with it. -/
theorem Unmarked.readOff {param : Param} (h : param.Unmarked) :
    ReadOff (·.text.toList) erase Unmarked Stops param := by
  intro other hother rest more hrest hmore heq
  simp only [toList_text, List.append_assoc] at heq
  obtain ⟨hname, hafter⟩ := h.name.append_inj hother.name (endsAtMark_typeText param.type hrest)
    (endsAtMark_typeText other.type hmore) heq
  obtain ⟨htype, hend⟩ := typeText_inj h.type hother.type hrest hmore hafter
  exact ⟨by rw [erase_eq, erase_eq, hname, htype], hend⟩

/-- A list of parameters is not closed before its first one. -/
theorem Unmarked.text_ne_close {param : Param} (h : param.Unmarked) (rest more : List Char) :
    param.text.toList ++ rest ≠ ')' :: more := by
  obtain ⟨c, cs, hname, hc⟩ := h.name.exists_cons
  intro heq
  rw [toList_text, hname] at heq
  obtain rfl : c = ')' := (List.cons.inj heq).1
  cases hc

/-- Parameters can be read off the parentheses that they stand in. -/
theorem list_inj {params others : List Param} (hparams : ∀ param ∈ params, param.Unmarked)
    (hothers : ∀ other ∈ others, other.Unmarked) {rest more : List Char}
    (h : (", ".intercalate (params.map text)).toList ++ ')' :: rest =
      (", ".intercalate (others.map text)).toList ++ ')' :: more) :
    params.map erase = others.map erase ∧ rest = more := by
  have hclose : ∀ rest, Stops (')' :: rest) := stops_cons (.inr rfl)
  have hcomma : ∀ rest, Stops (',' :: rest) := stops_cons (.inl rfl)
  cases params with
  | nil =>
    cases others with
    | nil => exact ⟨rfl, by simpa using h⟩
    | cons other others =>
      rw [toList_intercalate_cons, List.append_assoc] at h
      have hother := hothers other List.mem_cons_self
      exact absurd h.symm (hother.text_ne_close _ rest)
  | cons param params =>
    cases others with
    | nil =>
      rw [toList_intercalate_cons, List.append_assoc] at h
      have hparam := hparams param List.mem_cons_self
      exact absurd h (hparam.text_ne_close _ more)
    | cons other others =>
      obtain ⟨hparam, hparams⟩ := List.forall_mem_cons.mp hparams
      obtain ⟨hother, hothers⟩ := List.forall_mem_cons.mp hothers
      rw [toList_intercalate_cons, toList_intercalate_cons, List.append_assoc,
        List.append_assoc] at h
      obtain ⟨hfirst, hmid⟩ := hparam.readOff other hother _ _
        (stops_furtherText hclose hcomma params rest)
        (stops_furtherText hclose hcomma others more) h
      obtain ⟨hmap, hend⟩ := furtherText_inj (by decide) hclose hcomma
        (fun one hone => (hparams one hone).readOff) hothers hmid
      exact ⟨by rw [List.map_cons, List.map_cons, hfirst, hmap], hend⟩

end Param

end Interpose
