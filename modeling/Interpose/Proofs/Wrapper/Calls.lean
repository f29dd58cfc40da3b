import Interpose.Proofs.Definition.Canonical
import Interpose.Proofs.Text.Items
import Interpose.Proofs.Wrapper.Module
import Interpose.Proofs.Wrapper.Names
import Interpose.Proofs.Wrapper.Wiring

/-!
# Calls of bodies

A method of a wrapper calls its body through the attribute of a name and passes two arguments. The
implementing class defines the body under a name and with parameters. Both names are private to
their classes when they begin with two underscores, and the parameters are those of the definition.
So the attribute is found when the method's name begins with no underscore, and the arguments fit
when there are three parameters with distinct names.
-/

namespace Interpose

open Source Text

/-! ## Parameter lists -/

/-- The name that an item of a list begins with. -/
def itemName (item : List Char) : String :=
  String.ofList ((item.dropWhile (· = ' ')).takeWhile isNameRest)

/-- The names of the items in the first parentheses of a line behind a front. -/
def listedNames (front line : String) : List String :=
  ((items 0 ((line.toList.drop front.toList.length).dropWhile (· ≠ '(')).tail).map itemName).filter
    (· ≠ "")

/-- A name is not empty. -/
theorem ne_empty_of_isName {name : String} (h : isName name.toList) : name ≠ "" := by
  rintro rfl
  cases h

/-- An item of a list: a name, and what says more about it. -/
structure IsItem (name text : String) : Prop where
  /-- The name is an identifier. -/
  named : isName name.toList
  /-- What follows it is no part of a name. -/
  shape : ∃ more : String, text = name ++ more ∧ EndsName more.toList
  /-- The text is a part of one item. -/
  passes : Passes 0 text.toList

/-- Blanks before a name are dropped, and nothing of the name is. -/
theorem dropWhile_blanks {blanks : List Char} (hblanks : ∀ c ∈ blanks, c = ' ') {name : String}
    (hname : name.toList.all isNameRest = true) (hne : name ≠ "") (rest : List Char) :
    (blanks ++ (name.toList ++ rest)).dropWhile (· = ' ') = name.toList ++ rest := by
  have hall : blanks.all (· = ' ') = true := by simpa using hblanks
  refine dropWhile_append_of_head hall fun c hc => ?_
  have hcons : name.toList ≠ [] := fun hnil => hne (String.toList_inj.mp hnil)
  obtain ⟨first, more, hfirst⟩ := List.exists_cons_of_ne_nil hcons
  rw [hfirst, List.all_cons, Bool.and_eq_true] at hname
  rw [hfirst] at hc
  obtain rfl : first = c := Option.some.inj hc
  rw [decide_eq_false_iff_not]
  rintro rfl
  exact absurd hname.1 (by decide)

/-- The name behind blanks is read off a text in which nothing more of a name follows it. -/
theorem itemName_eq {blanks rest : List Char} {name : String} (hblanks : ∀ c ∈ blanks, c = ' ')
    (hname : name.toList.all isNameRest = true) (hne : name ≠ "") (hrest : EndsName rest) :
    itemName (blanks ++ (name.toList ++ rest)) = name := by
  rw [itemName, dropWhile_blanks hblanks hname hne, takeWhile_append_of_head hname hrest,
    String.ofList_toList]

/-- An item has the same name behind blanks. -/
theorem IsItem.itemName_eq {name text : String} (h : IsItem name text) {blanks : List Char}
    (hblanks : ∀ c ∈ blanks, c = ' ') : itemName (blanks ++ text.toList) = name := by
  obtain ⟨more, rfl, hmore⟩ := h.shape
  rw [String.toList_append]
  exact Interpose.itemName_eq hblanks (all_isNameRest_of_isName h.named)
    (ne_empty_of_isName h.named) hmore

/-- The names of a list's items are read off the line that it stands in. -/
theorem listedNames_eq {front name rest : String} (hname : '(' ∉ name.toList)
    {names texts : List String} (h : List.Forall₂ IsItem names texts) (hne : names ≠ []) :
    listedNames front (front ++ name ++ "(" ++ ", ".intercalate texts ++ ")" ++ rest) = names := by
  have hlist : ((front ++ name ++ "(" ++ ", ".intercalate texts ++ ")" ++ rest).toList.drop
      front.toList.length).dropWhile (· ≠ '(') =
        '(' :: ((", ".intercalate texts).toList ++ ')' :: rest.toList) := by
    have hline : (front ++ name ++ "(" ++ ", ".intercalate texts ++ ")" ++ rest).toList =
        front.toList ++ (name.toList ++
          '(' :: ((", ".intercalate texts).toList ++ ')' :: rest.toList)) := by simp
    have hall : name.toList.all (· ≠ '(') = true := by
      refine List.all_eq_true.mpr fun c hmem => ?_
      simpa using ne_of_mem_of_not_mem hmem hname
    rw [hline, List.drop_left, dropWhile_append_of_head hall (by simp)]
  have hfilter : names.filter (· ≠ "") = names := by
    refine List.filter_eq_self.mpr fun other hmem => ?_
    obtain ⟨text, _, hitem⟩ := exists_mem_of_forall₂ h hmem
    simpa using ne_empty_of_isName hitem.named
  have hrest : ∀ {names texts : List String}, List.Forall₂ IsItem names texts →
      (texts.map fun text => ' ' :: text.toList).map itemName = names := by
    intro names texts h
    induction h with
    | nil => rfl
    | @cons name text names texts hitem _ ih =>
      have hfirst : itemName ([' '] ++ text.toList) = name := hitem.itemName_eq (by simp)
      rw [List.map_cons, List.map_cons, ih, ← hfirst]
      rfl
  rw [listedNames, hlist, List.tail_cons]
  cases h with
  | nil => exact absurd rfl hne
  | @cons name text names texts hitem hitems =>
    have hpasses : ∀ other ∈ texts, Passes 0 other.toList := by
      have hflip : List.Forall₂ (flip IsItem) texts names := List.Forall₂.flip hitems
      intro other hmem
      obtain ⟨_, _, hother⟩ := exists_mem_of_forall₂ hflip hmem
      exact hother.passes
    have hfirst : itemName ([] ++ text.toList) = name := hitem.itemName_eq (by simp)
    rw [items_intercalate hitem.passes hpasses, List.map_cons, hrest hitems]
    exact (congrArg (fun first => (first :: names).filter (· ≠ "")) hfirst).trans hfilter

/-! ## Types and parameters as items -/

/-- The characters of names are plain. -/
theorem isPlain_of_isNameRest {c : Char} (h : isNameRest c = true) : IsPlain c := by
  have hmarks : ['(', ')', '[', ']', ','].any isNameRest = false := by decide
  intro hmem
  exact List.any_eq_false.mp hmarks c hmem h

/-- A dotted name is a part of one item. -/
theorem IsDotted.passes {text : String} (h : IsDotted text) (depth : Nat) :
    Passes depth text.toList := by
  refine passes_of_plain fun c hc => ?_
  rcases h.isNameRest_or_dot c hc with hrest | rfl
  · exact isPlain_of_isNameRest hrest
  · simp [IsPlain]

/-- The arguments of a type after the first one are parts of one item inside of brackets. -/
theorem passes_canonicalRest {depth : Nat} {args : List TypeExpr}
    (h : ∀ arg ∈ args, Passes (depth + 1) arg.canonical.toList) :
    Passes (depth + 1) (TypeExpr.canonicalRest args).toList := by
  have hblank : Passes (depth + 1) [' '] := passes_of_plain (by simp [IsPlain])
  induction args with
  | nil => exact passes_nil _
  | cons arg args ih =>
    obtain ⟨harg, hrest⟩ := List.forall_mem_cons.mp h
    rw [TypeExpr.canonicalRest, String.toList_append, String.toList_append]
    exact (((passes_comma depth).append hblank).append harg).append (ih hrest)

/-- A type is a part of one item. -/
theorem TypeExpr.WellNamed.passes {type : TypeExpr} (h : type.WellNamed) (depth : Nat) :
    Passes depth type.canonical.toList := by
  induction h generalizing depth with
  | @mk name args span hname _ ih =>
    cases args with
    | nil => exact hname.passes depth
    | cons arg args =>
      obtain ⟨harg, hrest⟩ := List.forall_mem_cons.mp ih
      have hinner : Passes (depth + 1)
          (arg.canonical.toList ++ (TypeExpr.canonicalRest args).toList) :=
        (harg (depth + 1)).append (passes_canonicalRest fun other hmem => hrest other hmem _)
      have htext : (TypeExpr.canonical ⟨name, arg :: args, span⟩).toList = name.toList ++
          '[' :: ((arg.canonical.toList ++ (TypeExpr.canonicalRest args).toList) ++ [']']) := by
        simp [TypeExpr.canonical]
      rw [htext]
      exact (hname.passes depth).append hinner.brackets

/-- The texts of parameters are items with their names. -/
theorem Param.WellFormed.isItem {param : Param} (h : param.WellFormed) :
    IsItem param.name param.text := by
  have hname : Passes 0 param.name.toList := passes_of_plain fun c hmem =>
    isPlain_of_isNameRest (isNameRest_of_isName h.name hmem)
  unfold Param.text
  split
  · exact ⟨h.name, ⟨"", by simp, by simp [EndsName]⟩, hname⟩
  · rename_i type htype
    refine ⟨h.name, ⟨": " ++ type.canonical, String.append_assoc, ?_⟩, ?_⟩
    · intro c hc
      obtain rfl : ':' = c := by simpa using hc
      decide
    · have hcolon : Passes 0 ": ".toList := passes_of_plain (by simp [IsPlain])
      rw [String.toList_append, String.toList_append]
      exact (hname.append hcolon).append ((h.type type htype).passes 0)

/-! ## The lines of calls and of bodies -/

/-- What stands before the name in the line with which a method calls its body. -/
def callFront : String := "            ret" ++ " = _Result.ok(await self.service_impl."

/-- The line with which a method of the first class in a text calls its body. -/
def callLine? (text name : String) : Option String :=
  (linesBetween (begins ("    async def " ++ name ++ "(")) (· == "") (firstClass text)).find?
    (begins callFront)

/-- The line that opens the body of a method in the second class of a text. -/
def bodyLine? (text name : String) : Option String :=
  (secondClass text).find? (begins ("    async def _" ++ name ++ "_impl("))

/-- The name of a class of a text. -/
def className (text : String) (index : Nat) : String := (classNames text).getD index ""

/-- A line that begins otherwise than with the answer's variable is no call. -/
theorem not_call_of_begins {front line : String} (h : begins front line = true)
    (hret : begins "            ret" front = false)
    (hfront : begins front "            ret" = false) : begins callFront line = false :=
  begins_append_eq_false _ (begins_eq_false_of_begins h hret hfront)

/-- The hooks before a call are no call. -/
theorem not_call_of_mem_beforeText {position index : Nat} :
    ∀ line ∈ beforeText position index, begins callFront line = false := by
  unfold beforeText
  simp only [List.forall_mem_cons]
  refine ⟨?_, ?_, ?_, ?_, by simp⟩
  · exact begins_append_eq_false _ (by decide)
  · have hline : begins "            ctx_" ("            ctx_" ++ toString position ++
        " = await self.md_" ++ toString index ++ ".before(request)") = true := by simp [begins]
    exact not_call_of_begins hline (by decide) (by decide)
  · have hline : begins "        except" ("        except self.md_" ++ toString index ++
        ".Error as exc:") = true := by simp [begins]
    exact not_call_of_begins hline (by decide) (by decide)
  · exact begins_append_eq_false _ (by decide)

/-- A method calls its body in one of its lines, with the contexts and the request. The line after
it catches the error. -/
theorem exists_split_methodText (name error : String) (indices : List Nat) :
    ∃ before rest, methodText name error indices = before ++ (callFront ++ bodyName name ++ "(" ++
        ", ".intercalate ["envs", "request"] ++ ")" ++ ")") ::
          ("        except " ++ error ++ " as exc:") :: rest ∧
      (∀ line ∈ before, begins callFront line = false) ∧
      begins callFront (callFront ++ bodyName name ++ "(" ++
        ", ".intercalate ["envs", "request"] ++ ")" ++ ")") = true := by
  have henvs : begins callFront ("        envs = " ++ tupleText indices.length) = false := by
    have hfront : begins "        envs" ("        envs = " ++ tupleText indices.length) = true := by
      simp [begins]
    exact not_call_of_begins hfront (by decide) (by decide)
  have htry : begins callFront "        try:" = false := begins_append_eq_false _ (by decide)
  have hcall : "            ret = _Result.ok(await self.service_impl._" ++ name ++
      "_impl(envs, request))" = callFront ++ bodyName name ++ "(" ++
        ", ".intercalate ["envs", "request"] ++ ")" ++ ")" := by
    have hfront : "            ret = _Result.ok(await self.service_impl._" = callFront ++ "_" := rfl
    have hrest : "_impl(envs, request))" =
        "_impl" ++ ("(" ++ (", ".intercalate ["envs", "request"] ++ (")" ++ ")"))) := by decide
    rw [hfront, hrest, bodyName]
    simp only [String.append_assoc]
  have hlines : ∃ rest, methodText name error indices =
      ((indices.zipIdx.flatMap fun hook => beforeText hook.2 hook.1) ++
        ["        envs = " ++ tupleText indices.length, "        try:"]) ++
      (callFront ++ bodyName name ++ "(" ++ ", ".intercalate ["envs", "request"] ++ ")" ++ ")") ::
        ("        except " ++ error ++ " as exc:") :: rest := by
    unfold methodText
    rw [hcall]
    simp only [List.append_assoc, List.cons_append, List.nil_append]
    exact ⟨_, rfl⟩
  obtain ⟨rest, hrest⟩ := hlines
  refine ⟨_, rest, hrest, ?_, ?_⟩
  · simp only [List.forall_mem_append, List.forall_mem_flatMap, List.forall_mem_cons]
    exact ⟨fun hook _ => not_call_of_mem_beforeText, henvs, htry, by simp⟩
  · rw [begins_eq_true_iff]
    simp only [String.toList_append, List.append_assoc]
    exact List.prefix_append _ _

/-- The call of a body is the first one of its method. -/
theorem find?_methodText (name error : String) (indices : List Nat) :
    (methodText name error indices).find? (begins callFront) =
      some (callFront ++ bodyName name ++ "(" ++ ", ".intercalate ["envs", "request"] ++ ")" ++
        ")") := by
  obtain ⟨before, rest, hlines, hbefore, hcall⟩ := exists_split_methodText name error indices
  have hnone : before.find? (begins callFront) = none := by
    rw [List.find?_eq_none]
    simpa only [Bool.not_eq_true] using hbefore
  rw [hlines, List.find?_append, hnone, Option.none_or, List.find?_cons_of_pos hcall]

/-- The call of a body stands in the method of that name. -/
theorem ImplDef.Wired.callLine?_eq {impl : ImplDef String} {service : Service} {text : String}
    (h : impl.Wired service text) {method : MethodDef String} (hmem : method ∈ impl.methods) :
    callLine? text method.name = some (callFront ++ bodyName method.name ++ "(" ++
      ", ".intercalate ["envs", "request"] ++ ")" ++ ")") := by
  obtain ⟨indices, _, hlines, _⟩ := h.methods method hmem
  rw [callLine?, hlines, find?_methodText]

/-- The name of a body holds no parenthesis. -/
theorem parenthesis_notMem_bodyName {name : String} (h : isName name.toList) :
    '(' ∉ (bodyName name).toList :=
  parenthesis_notMem_bodyName_iff.mpr (notMem_of_isName (by decide) (by decide) h)

/-- The line that opens the body of a method. -/
def MethodDef.bodyLine (method : MethodDef String) (response : String) : String :=
  "    async def " ++ bodyName method.name ++ "(" ++
    ", ".intercalate (method.params.map Param.text) ++ ")" ++ (" -> " ++ response ++ ":")

/-- No line but those of a block's methods opens a body. -/
theorem ImplDef.Wired.exists_of_begins {impl : ImplDef String} {service : Service} {text : String}
    (h : impl.Wired service text) (hservice : impl.service = .ok service) {line : String}
    (hmem : line ∈ secondClass text) (hline : begins "    async def " line = true) :
    ∃ method ∈ impl.methods, ∃ response, line = method.bodyLine response := by
  have hbodies : line ∈ (secondClass text).filter (begins "    async def ") :=
    List.mem_filter.mpr ⟨hmem, hline⟩
  rw [h.bodies] at hbodies
  obtain ⟨rpc, hrpc, rfl⟩ := List.mem_map.mp hbodies
  have hflip : List.Forall₂ (flip MethodDef.Keeps) service.methods impl.methods :=
    List.Forall₂.flip (keeps_of_service hservice)
  obtain ⟨method, hmethod, hkeeps⟩ := exists_mem_of_forall₂ hflip hrpc
  refine ⟨method, hmethod, rpc.response.canonical, ?_⟩
  unfold MethodDef.bodyLine
  rw [← hkeeps.name, ← hkeeps.params, ← String.toList_inj]
  simp [bodyName]

section

variable {impl : ImplDef String} (himpl : impl.WellFormed IsClean)
  (hnames : (impl.methods.map (·.name)).Nodup) {service : Service}
  (h : impl.service = .ok service)
include himpl hnames h

/-- The module of a service block is wired as the block says. -/
theorem ImplDef.wired : impl.Wired service service.text :=
  wired_of_lined h (lined_of_service himpl h) hnames

/-- The body of a method is opened with its name and its parameters. -/
theorem ImplDef.exists_bodyLine {method : MethodDef String} (hmem : method ∈ impl.methods) :
    ∃ response, bodyLine? service.text method.name = some (method.bodyLine response) := by
  have hwired := wired himpl hnames h
  have hplain : ∀ other ∈ impl.methods, '(' ∉ (bodyName other.name).toList :=
    fun other hother => parenthesis_notMem_bodyName (himpl.methods other hother).name
  obtain ⟨_, _, _, hopened⟩ := hwired.methods method hmem
  obtain ⟨line, hline⟩ : ∃ line, bodyLine? service.text method.name = some line := by
    rw [← Option.isSome_iff_exists, bodyLine?, List.find?_isSome]
    exact hopened
  rw [bodyLine?, bodyFront_eq] at hline
  have hbegins := List.find?_some hline
  have hmethod : begins "    async def " line = true := by
    rw [String.append_assoc] at hbegins
    exact begins_of_begins_append _ hbegins
  obtain ⟨other, hother, response, rfl⟩ :=
    hwired.exists_of_begins h (List.mem_of_find?_eq_some hline) hmethod
  have hbody : other.bodyLine response = "    async def " ++ bodyName other.name ++ "(" ++
      (", ".intercalate (other.params.map Param.text) ++ ")" ++ (" -> " ++ response ++ ":")) := by
    unfold MethodDef.bodyLine
    simp only [String.append_assoc]
  have hname : bodyName other.name = bodyName method.name :=
    eq_of_begins_parenthesis (hplain method hmem) (hplain other hother) (hbody ▸ hbegins)
  obtain rfl : other = method :=
    List.inj_on_of_nodup_map hnames hother hmem (bodyName_injective hname)
  exact ⟨response, by rw [bodyLine?, bodyFront_eq, hline]⟩

omit hnames in
/-- The first class of a service's text is the wrapper, the second one the implementing class. -/
theorem ImplDef.className_text : className service.text 0 = wrapperName impl.name ∧
    className service.text 1 = impl.name := by
  have hname := (service_eq_ok h).1
  have hclasses := (lined_of_service himpl h).classNames_text (hname ▸ himpl.name)
  rw [className, className, hclasses, hname]
  exact ⟨rfl, rfl⟩

end

/-! ## Bodies are looked up under their names -/

/-- The attribute under which a method of the first class in a text looks its body up. -/
def calledAttribute? (text name : String) : Option String :=
  (callLine? text name).map fun line =>
    attributeWithin (className text 0) (nameAfter callFront line)

/-- The attribute under which the second class of a text holds the body of a method. -/
def heldAttribute? (text name : String) : Option String :=
  (bodyLine? text name).map fun line =>
    attributeWithin (className text 1) (nameAfter "    async def " line)

/-- A method finds the body that it calls under the attribute that holds the body. -/
def FindsBody (text name : String) : Prop :=
  ∃ found, calledAttribute? text name = some found ∧ heldAttribute? text name = some found

/-- The name of a body is written with characters of names. -/
theorem all_isNameRest_bodyName {name : String} (h : isName name.toList) :
    (bodyName name).toList.all isNameRest = true := by
  rw [bodyName, String.toList_append, String.toList_append, List.all_append, List.all_append,
    all_isNameRest_of_isName h]
  decide

/-- The name in a line that a list follows is read off the line. -/
theorem nameAfter_bodyName {front name list rest : String} (h : isName name.toList) :
    nameAfter front (front ++ bodyName name ++ "(" ++ list ++ ")" ++ rest) = bodyName name := by
  have hline : front ++ bodyName name ++ "(" ++ list ++ ")" ++ rest =
      front ++ bodyName name ++ ("(" ++ list ++ ")" ++ rest) := by
    simp only [String.append_assoc]
  rw [hline]
  refine nameAfter_eq front (all_isNameRest_bodyName h) fun c hc => ?_
  obtain rfl : '(' = c := by simpa using hc
  decide

/-- The methods of a block's wrapper find the bodies that they call when their names do not begin
with an underscore. -/
theorem ImplDef.findsBody_iff {impl : ImplDef String} (himpl : impl.WellFormed IsClean)
    (hnames : (impl.methods.map (·.name)).Nodup) {service : Service}
    (h : impl.service = .ok service) {method : MethodDef String} (hmem : method ∈ impl.methods) :
    FindsBody service.text method.name ↔ BeginsPlain method.name := by
  obtain ⟨hwrapper, himplementor⟩ := className_text himpl h
  have hmethod := (himpl.methods method hmem).name
  have hcalled : calledAttribute? service.text method.name =
      some (attributeWithin (wrapperName impl.name) (bodyName method.name)) := by
    rw [calledAttribute?, (wired himpl hnames h).callLine?_eq hmem, Option.map_some,
      nameAfter_bodyName hmethod, hwrapper]
  have hheld : heldAttribute? service.text method.name =
      some (attributeWithin impl.name (bodyName method.name)) := by
    obtain ⟨response, hline⟩ := exists_bodyLine himpl hnames h hmem
    have hname : nameAfter "    async def " (method.bodyLine response) = bodyName method.name :=
      nameAfter_bodyName hmethod
    rw [heldAttribute?, hline, Option.map_some, hname, himplementor]
  rw [← attributeWithin_bodyName_eq_iff (ne_empty_of_isName hmethod) impl.name, FindsBody, hcalled,
    hheld]
  constructor
  · rintro ⟨found, hfirst, hsecond⟩
    exact Option.some.inj (hfirst.trans hsecond.symm)
  · intro heq
    exact ⟨_, rfl, congrArg some heq.symm⟩

/-- Each method of the wrappers in the module of a file finds the body that it calls, under the
attribute that the two classes' names make of the body's name, exactly when the name of the method
does not begin with an underscore. -/
theorem findsBody_iff_beginsPlain {support text code : String}
    (h : generate support text = .ok code) :
    ∃ definition services, Generated support text code definition services ∧
      List.Forall₂ (fun impl service => ∀ method ∈ impl.methods,
        (FindsBody service.text method.name ↔ BeginsPlain method.name))
        definition.impls services := by
  obtain ⟨definition, services, hgenerated⟩ := generate_eq_ok_iff.mp h
  refine ⟨definition, services, hgenerated, hgenerated.forall₂ ?_⟩
  intro impl _ service himpl hnames hservice method hmem
  exact ImplDef.findsBody_iff himpl hnames hservice hmem

/-- A text whose only method has a plain name and three parameters. -/
def simpleText : String := singleText "f" "self, env, request: R" "pass"

/-- The body of the method is found. -/
theorem findsBody_simple : ∃ code, generate defaultSupport simpleText = .ok code ∧
    ∃ definition services, Generated defaultSupport simpleText code definition services ∧
      List.Forall₂ (fun impl service => ∀ method ∈ impl.methods,
        FindsBody service.text method.name) definition.impls services := by
  have hparse : (parse simpleText).map (fun definition => (definition.services.isOk,
      definition.impls.flatMap (·.methods.map (·.name)))) = .ok (true, ["f"]) := by decide +kernel
  obtain ⟨code, hcode, hfound⟩ := exists_generate_eq_ok hparse
  obtain ⟨definition, services, hgenerated, hfinds⟩ := findsBody_iff_beginsPlain hcode
  have hname := (methods_of_flatMap_eq (hfound definition services hgenerated)).1
  refine ⟨code, hcode, definition, services, hgenerated, forall₂_of_mem hfinds ?_⟩
  intro impl himpl service hmethods method hmem
  refine (hmethods method hmem).mpr ?_
  rw [hname impl himpl method hmem]
  decide

/-- A text whose only method has a name with an underscore in front. -/
def underscoredText : String := singleText "_f" "self, env, request: R" "pass"

/-- The method is accepted, and its body is not found. -/
theorem not_findsBody : ∃ code, generate defaultSupport underscoredText = .ok code ∧
    ∃ definition services, Generated defaultSupport underscoredText code definition services ∧
      ¬ List.Forall₂ (fun impl service => ∀ method ∈ impl.methods,
        FindsBody service.text method.name) definition.impls services := by
  have hparse : (parse underscoredText).map (fun definition => (definition.services.isOk,
      definition.impls.flatMap (·.methods.map (·.name)))) = .ok (true, ["_f"]) := by decide +kernel
  obtain ⟨code, hcode, hfound⟩ := exists_generate_eq_ok hparse
  obtain ⟨definition, services, hgenerated⟩ := generate_eq_ok_iff.mp hcode
  refine ⟨code, hcode, definition, services, hgenerated, fun hfinds => ?_⟩
  have hplain : List.Forall₂ (fun impl service => (∀ method ∈ impl.methods,
      FindsBody service.text method.name) → ∀ method ∈ impl.methods, BeginsPlain method.name)
      definition.impls services := by
    refine hgenerated.forall₂ fun impl _ service himpl hnames hservice hfinds method hmem => ?_
    exact (ImplDef.findsBody_iff himpl hnames hservice hmem).mp (hfinds method hmem)
  obtain ⟨impl, himpl, method, hmem, hname⟩ :=
    (methods_of_flatMap_eq (hfound definition services hgenerated)).2
  have hbegins := forall_mem_of_forall₂ (hplain.mp (fun _ _ h => h) hfinds) impl himpl method hmem
  rw [hname] at hbegins
  exact absurd hbegins (by decide)

/-! ## Arguments and parameters -/

/-- The arguments with which a method of the first class in a text calls its body. -/
def calledArguments? (text name : String) : Option (List String) :=
  (callLine? text name).map (listedNames callFront)

/-- The parameters of the body of a method in the second class of a text. -/
def heldParameters? (text name : String) : Option (List String) :=
  (bodyLine? text name).map (listedNames "    async def ")

/-- A method of a class can be called with some arguments: one parameter is the receiver, the others
take one argument each, and no two parameters have the same name in the class. -/
structure Takes (className : String) (parameters arguments : List String) : Prop where
  /-- There is a parameter for the receiver and one for each argument. -/
  length : parameters.length = arguments.length + 1
  /-- Their names are distinct. -/
  distinct : (parameters.map (attributeWithin className)).Nodup

/-- The body of a method takes the arguments with which the method calls it. -/
def BodyTakes (text name : String) : Prop :=
  ∃ parameters arguments, heldParameters? text name = some parameters ∧
    calledArguments? text name = some arguments ∧ Takes (className text 1) parameters arguments

/-- A method with a typed request has a receiver, an environment and the request. -/
theorem MethodDef.three_le_of_rpc {method : MethodDef String} {rpc : Rpc}
    (h : method.rpc = .ok rpc) : 3 ≤ method.params.length := by
  obtain ⟨signature, hsignature, _⟩ := bind_eq_ok_iff.mp h
  obtain ⟨request, hrequest, _⟩ := bind_eq_ok_iff.mp hsignature
  unfold MethodDef.requestType at hrequest
  split at hrequest
  · rename_i hparams
    rw [hparams]
    simp
  · cases hrequest

/-- The methods of a block that becomes a service have at least three parameters. -/
theorem ImplDef.three_le_of_service {impl : ImplDef String} {service : Service}
    (h : impl.service = .ok service) : ∀ method ∈ impl.methods, 3 ≤ method.params.length := by
  obtain ⟨_, _, _, rpcs, hrpcs, _⟩ := service_eq_ok_iff.mp h
  intro method hmem
  obtain ⟨rpc, _, hrpc⟩ := exists_mem_of_forall₂ (mapM_eq_ok_iff.mp hrpcs) hmem
  exact MethodDef.three_le_of_rpc hrpc

section

variable {impl : ImplDef String} (himpl : impl.WellFormed IsClean)
  (hnames : (impl.methods.map (·.name)).Nodup) {service : Service}
  (h : impl.service = .ok service) {method : MethodDef String} (hmem : method ∈ impl.methods)
include himpl hnames h hmem

/-- A method passes the contexts and the request. -/
theorem ImplDef.calledArguments?_eq :
    calledArguments? service.text method.name = some ["envs", "request"] := by
  have hplain := parenthesis_notMem_bodyName (himpl.methods method hmem).name
  have hitem : ∀ name : String, isName name.toList → IsItem name name := by
    intro name hname
    exact ⟨hname, ⟨"", by simp, by simp [EndsName]⟩, passes_of_plain fun c hin =>
      isPlain_of_isNameRest (isNameRest_of_isName hname hin)⟩
  have hitems : List.Forall₂ IsItem ["envs", "request"] ["envs", "request"] :=
    .cons (hitem _ (by decide)) (.cons (hitem _ (by decide)) .nil)
  rw [calledArguments?, (wired himpl hnames h).callLine?_eq hmem, Option.map_some,
    listedNames_eq hplain hitems (by simp)]

/-- The parameters of a body are those of its method. -/
theorem ImplDef.heldParameters?_eq :
    heldParameters? service.text method.name = some (method.params.map (·.name)) := by
  have hmethod := himpl.methods method hmem
  have hplain := parenthesis_notMem_bodyName hmethod.name
  have hitems : List.Forall₂ IsItem (method.params.map (·.name))
      (method.params.map Param.text) := by
    rw [List.forall₂_map_left_iff, List.forall₂_map_right_iff, List.forall₂_same]
    exact fun param hparam => (hmethod.params param hparam).isItem
  have hne : method.params.map (·.name) ≠ [] := by
    have hthree := three_le_of_service h method hmem
    intro hnil
    simp [List.map_eq_nil_iff.mp hnil] at hthree
  obtain ⟨response, hline⟩ := exists_bodyLine himpl hnames h hmem
  have hlisted : listedNames "    async def " (method.bodyLine response) =
      method.params.map (·.name) := listedNames_eq hplain hitems hne
  rw [heldParameters?, hline, Option.map_some, hlisted]

/-- The bodies of a block's methods take what the methods of its wrapper pass when they have three
parameters with distinct names. -/
theorem ImplDef.bodyTakes_iff : BodyTakes service.text method.name ↔
    method.params.length = 3 ∧
      (method.params.map fun param => attributeWithin impl.name param.name).Nodup := by
  have harguments := calledArguments?_eq himpl hnames h hmem
  have hparameters := heldParameters?_eq himpl hnames h hmem
  have hnames : (method.params.map (·.name)).map (attributeWithin impl.name) =
      method.params.map fun param => attributeWithin impl.name param.name := List.map_map
  rw [BodyTakes, harguments, hparameters, (className_text himpl h).2]
  constructor
  · rintro ⟨parameters, arguments, hfirst, hsecond, htakes⟩
    obtain rfl := Option.some.inj hfirst
    obtain rfl := Option.some.inj hsecond
    exact ⟨by simpa using htakes.length, hnames ▸ htakes.distinct⟩
  · rintro ⟨hlength, hdistinct⟩
    exact ⟨_, _, rfl, rfl, ⟨by simpa using hlength, hnames ▸ hdistinct⟩⟩

end

/-- Each method of the wrappers in the module of a file passes the contexts and the request to its
body, whose parameters are those of the method. The body takes them exactly when these are a
receiver, an environment and the request and have distinct names. There can be more of them. -/
theorem bodyTakes_iff_three_params {support text code : String}
    (h : generate support text = .ok code) :
    ∃ definition services, Generated support text code definition services ∧
      List.Forall₂ (fun impl service => ∀ method ∈ impl.methods,
        calledArguments? service.text method.name = some ["envs", "request"] ∧
        heldParameters? service.text method.name = some (method.params.map (·.name)) ∧
        3 ≤ method.params.length ∧
        (BodyTakes service.text method.name ↔ method.params.length = 3 ∧
          (method.params.map fun param => attributeWithin impl.name param.name).Nodup))
        definition.impls services := by
  obtain ⟨definition, services, hgenerated⟩ := generate_eq_ok_iff.mp h
  refine ⟨definition, services, hgenerated, hgenerated.forall₂ ?_⟩
  intro impl _ service himpl hnames hservice method hmem
  exact ⟨ImplDef.calledArguments?_eq himpl hnames hservice hmem,
    ImplDef.heldParameters?_eq himpl hnames hservice hmem,
    ImplDef.three_le_of_service hservice method hmem,
    ImplDef.bodyTakes_iff himpl hnames hservice hmem⟩

/-- The body of a method with three parameters takes what is passed. -/
theorem bodyTakes_simple : ∃ code, generate defaultSupport simpleText = .ok code ∧
    ∃ definition services, Generated defaultSupport simpleText code definition services ∧
      List.Forall₂ (fun impl service => ∀ method ∈ impl.methods,
        BodyTakes service.text method.name) definition.impls services := by
  have hparse : (parse simpleText).map (fun definition => (definition.services.isOk,
      definition.impls.flatMap (·.methods.map (·.params.map (·.name))))) =
        .ok (true, [["self", "env", "request"]]) := by decide +kernel
  obtain ⟨code, hcode, hfound⟩ := exists_generate_eq_ok hparse
  obtain ⟨definition, services, hgenerated, htakes⟩ := bodyTakes_iff_three_params hcode
  have hnames := (methods_of_flatMap_eq (hfound definition services hgenerated)).1
  refine ⟨code, hcode, definition, services, hgenerated, forall₂_of_mem htakes ?_⟩
  intro impl himpl service hmethods method hmem
  have hparams := hnames impl himpl method hmem
  have hlength : method.params.length = 3 := by
    have hlengths := congrArg List.length hparams
    simpa using hlengths
  have hplain : ∀ name ∈ ["self", "env", "request"], attributeWithin impl.name name = name := by
    intro name hname
    refine attributeWithin_of_not_private ?_ impl.name
    revert name
    decide
  have hdistinct : (method.params.map fun param => attributeWithin impl.name param.name) =
      ["self", "env", "request"] := by
    have hmap := List.map_congr_left hplain
    rwa [← hparams, List.map_map, List.map_id', hparams] at hmap
  obtain ⟨_, _, _, hiff⟩ := hmethods method hmem
  exact hiff.mpr ⟨hlength, hdistinct ▸ by decide⟩

/-- A text whose only method has a fourth parameter. -/
def extraText : String := singleText "f" "self, env, request: R, extra: X" "pass"

/-- The method is accepted, and its body does not take what is passed. -/
theorem not_bodyTakes : ∃ code, generate defaultSupport extraText = .ok code ∧
    ∃ definition services, Generated defaultSupport extraText code definition services ∧
      ¬ List.Forall₂ (fun impl service => ∀ method ∈ impl.methods,
        BodyTakes service.text method.name) definition.impls services := by
  have hparse : (parse extraText).map (fun definition => (definition.services.isOk,
      definition.impls.flatMap (·.methods.map (·.params.length)))) = .ok (true, [4]) := by
    decide +kernel
  obtain ⟨code, hcode, hfound⟩ := exists_generate_eq_ok hparse
  obtain ⟨definition, services, hgenerated⟩ := generate_eq_ok_iff.mp hcode
  refine ⟨code, hcode, definition, services, hgenerated, fun htakes => ?_⟩
  have hthree : List.Forall₂ (fun impl service => (∀ method ∈ impl.methods,
      BodyTakes service.text method.name) → ∀ method ∈ impl.methods, method.params.length = 3)
      definition.impls services := by
    refine hgenerated.forall₂ fun impl _ service himpl hnames hservice htakes method hmem => ?_
    exact ((ImplDef.bodyTakes_iff himpl hnames hservice hmem).mp (htakes method hmem)).1
  obtain ⟨impl, himpl, method, hmem, hfour⟩ :=
    (methods_of_flatMap_eq (hfound definition services hgenerated)).2
  have hlength := forall_mem_of_forall₂ (hthree.mp (fun _ _ h => h) htakes) impl himpl method hmem
  omega

end Interpose
