import Interpose.Proofs.Wrapper.Bodies
import Interpose.Proofs.Wrapper.Hygiene

/-!
# The namespaces of generated classes

A wrapper has its methods and its fields under names of their own, since no method of a definition
takes a name that begins with two underscores or that of a field, and no class takes such names for
itself. An implementing class writes the bodies under distinct names too. But the bodies of methods
that begin with an underscore are private to the class, which has them under other names than the
ones that are written, and such a name can be that of another body.
-/

namespace Interpose

open Source Text

/-! ## Names that are defined in a class -/

/-- Whether a line opens a method of a class. -/
def opensMethod (line : String) : Bool := begins "    def " line || begins "    async def " line

/-- The name in a line that opens a method. -/
def openedName (line : String) : String :=
  if begins "    def " line then nameAfter "    def " line else nameAfter "    async def " line

/-- The names under which the lines of a class write its methods. -/
def writtenNames (lines : List String) : List String := (lines.filter opensMethod).map openedName

/-- The fields that a wrapper keeps its parameters in. -/
def keptNames (text : String) : List String :=
  (linesBetween (begins "    ) -> None:") (· == "") (firstClass text)).map
    (nameAfter "        self.")

/-- The names of the methods and the fields of the first class in a text. -/
def wrapperNames (text : String) : List String := writtenNames (firstClass text) ++ keptNames text

/-- The names of the methods of the second class in a text. -/
def implementorNames (text : String) : List String := writtenNames (secondClass text)

/-! ## The names as they are written -/

/-- No line within a method opens one. -/
theorem not_opensMethod_of_deep {line : String} (h : Deep line) : opensMethod line = false := by
  rw [opensMethod, Bool.or_eq_false_iff]
  exact ⟨begins_eq_false_of_begins h (by decide) (by decide),
    begins_eq_false_of_begins h (by decide) (by decide)⟩

/-- No shallow line opens a method. -/
theorem not_opensMethod_of_shallow {line : String} (h : Shallow line.toList) :
    opensMethod line = false := by
  rw [opensMethod, Bool.or_eq_false_iff]
  exact ⟨begins_eq_false_of_shallow h (by decide), begins_eq_false_of_shallow h (by decide)⟩

/-- Lines of which none opens a method write no name. -/
theorem filter_opensMethod_eq_nil {lines : List String}
    (h : ∀ line ∈ lines, opensMethod line = false) : lines.filter opensMethod = [] := by
  rw [List.filter_eq_nil_iff]
  simpa only [Bool.not_eq_true] using h

/-- A line with the title of a method opens it. -/
theorem opensMethod_of_begins {line : String} (h : begins "    async def " line = true) :
    opensMethod line = true := by
  rw [opensMethod, h, Bool.or_true]

/-- The name of a method whose answer is awaited stands before a parenthesis. -/
theorem openedName_async {name : String} (hname : name.toList.all isNameRest) (rest : String) :
    openedName ("    async def " ++ name ++ "(" ++ rest) = name := by
  have hline : begins "    async def " ("    async def " ++ name ++ "(" ++ rest) = true := by
    simp [begins]
  have hdef : begins "    def " ("    async def " ++ name ++ "(" ++ rest) = false :=
    begins_eq_false_of_begins hline (by decide) (by decide)
  rw [openedName, hdef, String.append_assoc]
  refine nameAfter_eq _ hname fun c hc => ?_
  obtain rfl : '(' = c := by simpa using hc
  decide

/-- A class with one method before its sections writes the name of that method and the names with
which the titles of its sections begin. -/
theorem writtenNames_sections {α : Type} {title : α → String} {inner : α → List String}
    {key : α → String} {opening : String} {head tail : List String} {items : List α}
    (hhead : head.filter opensMethod = [opening]) (htail : tail.filter opensMethod = [])
    (htitle : ∀ item, ∃ rest, title item = "    async def " ++ key item ++ "(" ++ rest)
    (hinner : ∀ item, ∀ line ∈ inner item, opensMethod line = false)
    (hkey : ∀ item ∈ items, (key item).toList.all isNameRest) :
    writtenNames (head ++ sections title inner items ++ tail) =
      openedName opening :: items.map key := by
  have hopens : ∀ item, opensMethod (title item) = true := by
    intro item
    obtain ⟨rest, hrest⟩ := htitle item
    exact opensMethod_of_begins (hrest ▸ by simp [begins])
  have hempty : opensMethod "" = false := by decide
  have hsections : (sections title inner items).filter opensMethod = items.map title := by
    simp only [sections, List.filter_flatMap, List.filter_cons, hempty, hopens,
      filter_opensMethod_eq_nil (hinner _), Bool.false_eq_true, if_true, if_false]
    exact List.map_eq_flatMap.symm
  have hnames : (items.map title).map openedName = items.map key := by
    rw [List.map_map]
    refine List.map_congr_left fun item hmem => ?_
    obtain ⟨rest, hrest⟩ := htitle item
    rw [Function.comp_apply, hrest, openedName_async (hkey item hmem)]
  rw [writtenNames, List.filter_append, List.filter_append, hhead, htail, hsections,
    List.append_nil, List.map_append, hnames]
  rfl

/-- A wrapper writes its initialization and then its methods. -/
theorem Wrapper.writtenNames_inner {wrapper : Wrapper}
    (h : ∀ method ∈ wrapper.methods, isName method.name.toList) :
    writtenNames wrapper.inner = "__init__" :: wrapper.methods.map (·.name) := by
  have hhead : wrapper.head.filter opensMethod = ["    def __init__("] := by
    have hparameters := filter_opensMethod_eq_nil fun line hmem =>
      not_opensMethod_of_deep (deep_parameterLines 0 wrapper.fields line hmem)
    have hkept : (wrapper.kept.map keepingLine).filter opensMethod = [] :=
      filter_opensMethod_eq_nil (List.forall_mem_map.mpr fun name _ =>
        not_opensMethod_of_deep (deep_keepingLine name))
    rw [head, List.filter_append, List.filter_append, List.filter_append, hparameters, hkept]
    simp [opensMethod, begins, List.isPrefixOf]
  have hname : openedName "    def __init__(" = "__init__" := by decide
  have hempty : ["", ""].filter opensMethod = [] := by decide
  have hwritten := writtenNames_sections hhead hempty (fun method => ⟨_, method.title_eq⟩)
    (fun method line hmem => not_opensMethod_of_deep (method.deep_of_mem line hmem))
    (fun method hmem => all_isNameRest_of_isName (h method hmem))
  rwa [hname] at hwritten

/-- An implementing class writes the method that makes the wrapper and then the bodies. -/
theorem Implementor.writtenNames_inner {implementor : Implementor}
    (h : ∀ body ∈ implementor.bodies, isName body.method.toList) :
    writtenNames implementor.inner =
      "to_service_middleware" :: implementor.bodies.map fun body => bodyName body.method := by
  have hhead : implementor.head.filter opensMethod = ["    def to_service_middleware("] := by
    have hparameters := filter_opensMethod_eq_nil fun line hmem =>
      not_opensMethod_of_deep (deep_parameterLines 0 implementor.fields line hmem)
    rw [head, List.filter_append, List.filter_append, hparameters]
    simp [opensMethod, begins, List.isPrefixOf]
  have hname : openedName "    def to_service_middleware(" = "to_service_middleware" := by decide
  have hempty : [""].filter opensMethod = [] := by decide
  have hinner : ∀ body : HeldBody, ∀ line ∈ linesOf (indentedBody body.text),
      opensMethod line = false :=
    fun _ _ hmem => not_opensMethod_of_shallow (shallow_of_mem_linesOf hmem)
  have hwritten := writtenNames_sections hhead hempty (fun body => ⟨_, body.title_eq⟩) hinner
    (fun body hmem => all_isNameRest_bodyName (h body hmem))
  rwa [hname] at hwritten

/-- The fields of a wrapper are those of the parameters that it keeps. -/
theorem Service.Lined.keptNames_text {service : Service} (h : service.Lined) :
    keptNames service.text = service.wrapper.kept := by
  have hname : ∀ name ∈ service.wrapper.kept,
      nameAfter "        self." (keepingLine name) = name := by
    intro name hmem
    have hletters : name.toList.all isNameRest = true := by
      rcases List.mem_cons.mp hmem with rfl | hmem
      · decide
      · obtain ⟨index, _, rfl⟩ := mem_fieldNames.mp hmem
        exact all_isNameRest_fieldName index
    have hline : keepingLine name = "        self." ++ name ++ (" = " ++ name) :=
      String.append_assoc
    rw [hline]
    refine nameAfter_eq _ hletters fun c hc => ?_
    obtain rfl : ' ' = c := by simpa using hc
    decide
  rw [keptNames, h.firstClass_text, Wrapper.kept_inner, List.map_map]
  conv_rhs => rw [← List.map_id service.wrapper.kept]
  exact List.map_congr_left hname

/-! ## The names that a class has for itself -/

/-- The name of a class without its leading underscores. -/
def bareName (className : String) : String :=
  String.ofList (className.toList.dropWhile (· = '_'))

/-- The method whose body is written, if it is, as a class has the body of a method: another one
than that method when the body is private. -/
def heldFor (className name : String) : String :=
  if BeginsPlain name ∨ bareName className = "" then name else bareName className ++ "_" ++ name

/-- A class has the body of a method under the name of a body. -/
theorem attributeWithin_bodyName_eq {name : String} (hne : name ≠ "") (className : String) :
    attributeWithin className (bodyName name) = bodyName (heldFor className name) := by
  unfold heldFor
  split
  · rename_i hplain
    rcases hplain with hplain | hbare
    · exact attributeWithin_bodyName hplain className
    · have hnil : className.toList.dropWhile (· = '_') = [] := by
        simpa [bareName] using hbare
      rw [attributeWithin, nameWithin, hnil, String.ofList_toList]
  · rename_i hplain
    rw [not_or] at hplain
    have hprivate := isPrivate_bodyName (underscore_prefix_of_not_beginsPlain hne hplain.1)
    have hwithin : nameWithin className.toList (bodyName name).toList =
        '_' :: (className.toList.dropWhile (· = '_') ++ (bodyName name).toList) := by
      unfold nameWithin
      split
      · rename_i hnil
        exact absurd (by rw [bareName, hnil]) hplain.2
      · rw [if_pos hprivate]
        rfl
    rw [attributeWithin, hwithin, ← String.toList_inj]
    simp [bodyName, bareName]

/-- What begins with the bare name of a class begins with no underscore. -/
theorem beginsPlain_bareName_append {className : String} (h : bareName className ≠ "")
    (more : String) : BeginsPlain (bareName className ++ more) := by
  have hhead := head_dropWhile (p := (· = '_')) className.toList
  cases hbare : className.toList.dropWhile (· = '_') with
  | nil => exact absurd (by rw [bareName, hbare]) h
  | cons c cs =>
    refine ⟨c, by simp [bareName, hbare], ?_⟩
    simpa using hhead c (by simp [hbare])

section

variable {className : String} {names : List String} (hnames : names.Nodup)
  (hne : ∀ name ∈ names, name ≠ "") (hfree : ∀ name ∈ names, ¬ ['_', '_'] <+: name.toList)
include hnames hne hfree

/-- A class has the bodies of different methods under different names unless one method is named as
the body of another one makes the class have it. -/
theorem nodup_map_heldFor_iff : (names.map (heldFor className)).Nodup ↔
    ∀ name ∈ names, ∀ other ∈ names, ¬ BeginsPlain other →
      name ≠ bareName className ++ "_" ++ other := by
  have hprivate : ∀ other, ¬ BeginsPlain other → bareName className ≠ "" →
      heldFor className other = bareName className ++ "_" ++ other := by
    intro other hplain hbare
    rw [heldFor, if_neg (not_or.mpr ⟨hplain, hbare⟩)]
  rw [List.nodup_map_iff_inj_on hnames]
  constructor
  · rintro hinjective name hmem other hother hplain rfl
    by_cases hbare : bareName className = ""
    · obtain ⟨rest, hrest⟩ := underscore_prefix_of_not_beginsPlain (hne other hother) hplain
      refine hfree _ hmem ⟨rest, ?_⟩
      simp [hbare, ← hrest]
    · have hbegins : BeginsPlain (bareName className ++ "_" ++ other) := by
        rw [String.append_assoc]
        exact beginsPlain_bareName_append hbare _
      have hsame : heldFor className (bareName className ++ "_" ++ other) =
          heldFor className other := by
        rw [hprivate other hplain hbare, heldFor, if_pos (.inl hbegins)]
      exact hplain (hinjective _ hmem _ hother hsame ▸ hbegins)
  · intro hclash name hmem other hother hsame
    by_cases hbare : bareName className = ""
    · simpa [heldFor, hbare] using hsame
    · by_cases hname : BeginsPlain name <;> by_cases hplain : BeginsPlain other
      · simpa [heldFor, hname, hplain] using hsame
      · rw [hprivate other hplain hbare, heldFor, if_pos (.inl hname)] at hsame
        exact absurd hsame (hclash name hmem other hother hplain)
      · rw [hprivate name hname hbare, heldFor, if_pos (.inl hplain)] at hsame
        exact absurd hsame.symm (hclash other hother name hmem hname)
      · rw [hprivate name hname hbare, hprivate other hplain hbare] at hsame
        have hlists := congrArg String.toList hsame
        simp only [String.toList_append, List.append_cancel_left_eq] at hlists
        exact String.toList_inj.mp hlists

end

/-! ## The namespaces of a service's classes -/

/-- What the text of a service says about the names in its two classes. -/
structure ImplDef.Namespaces (impl : ImplDef String) (service : Service) (text : String) : Prop
    where
  /-- The wrapper has the methods of the block besides its initialization, and a field for the
  implementation and for each entry of the registry. -/
  wrapper : wrapperNames text = ("__init__" :: impl.methods.map (·.name)) ++
    "service_impl" :: (List.range service.registry.length).map fun index => "md_" ++ toString index
  /-- No two of these have one name. -/
  wrapperDistinct : (wrapperNames text).Nodup
  /-- None of their names is private to the wrapper. -/
  wrapperKept : (wrapperNames text).map (attributeWithin (className text 0)) = wrapperNames text
  /-- The implementing class writes the method that makes the wrapper, and a body for each method of
  the block. -/
  implementor : implementorNames text =
    "to_service_middleware" :: impl.methods.map fun method => "_" ++ method.name ++ "_impl"
  /-- It writes them under distinct names. -/
  implementorDistinct : (implementorNames text).Nodup
  /-- It has them under distinct names unless a method is named as the body of a method with an
  underscore in front makes it. -/
  implementorKept : ((implementorNames text).map (attributeWithin (className text 1))).Nodup ↔
    ∀ method ∈ impl.methods, ∀ other ∈ impl.methods, ¬ BeginsPlain other.name →
      method.name ≠ bareName impl.name ++ "_" ++ other.name

/-- No class takes a name for itself that a method may have. -/
theorem not_isPrivate_of_not_reserved {name : String} (h : ¬ Reserved name) :
    isPrivate name.toList = false := by
  have hfront : ¬ name.toList.take 2 = ['_', '_'] := fun hfront =>
    h (.inl (List.prefix_iff_eq_take.mpr hfront.symm))
  simp [isPrivate, hfront]

/-- The name of a body begins with an underscore. -/
theorem bodyName_ne_of_head {other : String} (h : other.toList.head? ≠ some '_') (name : String) :
    bodyName name ≠ other := by
  rintro rfl
  simp [bodyName] at h

/-- What a wrapper keeps its parameters in is reserved, and no class takes it for itself. -/
theorem Service.reserved_of_mem_kept {service : Service} {name : String}
    (h : name ∈ service.wrapper.kept) :
    isReserved name = true ∧ name ≠ "__init__" ∧ isPrivate name.toList = false := by
  have hattributes : service.attributes.map Prod.fst = service.wrapper.kept := by
    rw [attributes_eq, List.map_cons, List.map_fst_zip (by simp)]
    rfl
  refine ⟨service.isReserved_of_mem_attributes (hattributes ▸ h), ?_⟩
  rcases List.mem_cons.mp h with rfl | hmem
  · decide
  · obtain ⟨index, _, rfl⟩ := mem_fieldNames.mp hmem
    refine ⟨fieldName_ne_of_head (by decide), ?_⟩
    simp [isPrivate, fieldName_natCast, fieldFront]

section

variable {impl : ImplDef String} (himpl : impl.WellFormed IsClean)
  (hnames : (impl.methods.map (·.name)).Nodup)
  (hfree : ∀ method ∈ impl.methods, isReserved method.name = false) {service : Service}
  (h : impl.service = .ok service)

include himpl hfree in
/-- The methods of a block have names that no class takes for itself. -/
theorem ImplDef.not_reserved_of_mem {name : String} (hmem : name ∈ impl.methods.map (·.name)) :
    isReserved name = false ∧ ¬ Reserved name ∧ name ≠ "" := by
  obtain ⟨method, hmethod, rfl⟩ := List.mem_map.mp hmem
  have hname := (himpl.methods method hmethod).name
  refine ⟨hfree method hmethod, fun hreserved => ?_, ne_empty_of_isName hname⟩
  have htrue := (isReserved_eq_true_iff hname).mpr hreserved
  rw [hfree method hmethod] at htrue
  cases htrue

include himpl h in
/-- The names in a wrapper are those of its methods and of what it keeps. -/
theorem ImplDef.wrapperNames_text : wrapperNames service.text =
    ("__init__" :: impl.methods.map (·.name)) ++ service.wrapper.kept := by
  have hlined := lined_of_service himpl h
  have hmethods : ∀ method ∈ service.wrapper.methods, isName method.name.toList :=
    List.forall_mem_map.mpr fun rpc hrpc => (hlined.methods rpc hrpc).name
  have hsame : service.wrapper.methods.map (·.name) = impl.methods.map (·.name) := by
    rw [← names_of_service h, Service.wrapper, List.map_map]
    rfl
  rw [wrapperNames, hlined.firstClass_text, Wrapper.writtenNames_inner hmethods,
    hlined.keptNames_text, hsame]

include himpl h in
/-- The names in an implementing class are those of its bodies and of one more method. -/
theorem ImplDef.implementorNames_text : implementorNames service.text =
    "to_service_middleware" :: (impl.methods.map (·.name)).map bodyName := by
  have hlined := lined_of_service himpl h
  have hbodies : ∀ body ∈ service.implementorClass.bodies, isName body.method.toList :=
    List.forall_mem_map.mpr fun rpc hrpc => (hlined.methods rpc hrpc).name
  have hsame : (service.implementorClass.bodies.map fun body => bodyName body.method) =
      (impl.methods.map (·.name)).map bodyName := by
    rw [← names_of_service h, Service.implementorClass, List.map_map, List.map_map]
    rfl
  rw [implementorNames, hlined.secondClass_text, Implementor.writtenNames_inner hbodies, hsame]

include himpl hnames hfree h

/-- The names of a wrapper are distinct. -/
theorem ImplDef.nodup_wrapperNames : (wrapperNames service.text).Nodup := by
  rw [wrapperNames_text himpl h]
  refine List.nodup_append.mpr ⟨List.nodup_cons.mpr ⟨?_, hnames⟩,
    nodup_implementationField_fieldNames _, ?_⟩
  · intro hmem
    exact absurd (not_reserved_of_mem himpl hfree hmem).1 (by decide +kernel)
  · rintro name hname other hother rfl
    obtain ⟨hreserved, hinit, _⟩ := Service.reserved_of_mem_kept hother
    rcases List.mem_cons.mp hname with rfl | hmem
    · exact hinit rfl
    · rw [(not_reserved_of_mem himpl hfree hmem).1] at hreserved
      cases hreserved

omit hnames in
/-- No name of a wrapper is private. -/
theorem ImplDef.not_isPrivate_of_mem_wrapperNames :
    ∀ name ∈ wrapperNames service.text, isPrivate name.toList = false := by
  rw [wrapperNames_text himpl h, List.forall_mem_append, List.forall_mem_cons]
  refine ⟨⟨by decide, fun name hmem => ?_⟩, fun name hmem => ?_⟩
  · exact not_isPrivate_of_not_reserved (not_reserved_of_mem himpl hfree hmem).2.1
  · exact (Service.reserved_of_mem_kept hmem).2.2

omit hfree in
/-- The names of the implementing class are distinct. -/
theorem ImplDef.nodup_implementorNames : (implementorNames service.text).Nodup := by
  rw [implementorNames_text himpl h]
  refine List.nodup_cons.mpr ⟨?_, hnames.map bodyName_injective⟩
  intro hmem
  obtain ⟨name, _, hname⟩ := List.mem_map.mp hmem
  exact bodyName_ne_of_head (by decide) name hname

/-- The names that an implementing class has for its methods are distinct unless a body takes that
of another one. -/
theorem ImplDef.nodup_map_implementorNames_iff :
    ((implementorNames service.text).map (attributeWithin impl.name)).Nodup ↔
      ∀ method ∈ impl.methods, ∀ other ∈ impl.methods, ¬ BeginsPlain other.name →
        method.name ≠ bareName impl.name ++ "_" ++ other.name := by
  have hplain : attributeWithin impl.name "to_service_middleware" = "to_service_middleware" :=
    attributeWithin_of_not_private (by decide) _
  have hheld : ((impl.methods.map (·.name)).map bodyName).map (attributeWithin impl.name) =
      ((impl.methods.map (·.name)).map (heldFor impl.name)).map bodyName := by
    simp only [List.map_map]
    refine List.map_congr_left fun method hmem => ?_
    have hname := not_reserved_of_mem himpl hfree (List.mem_map_of_mem hmem)
    exact attributeWithin_bodyName_eq hname.2.2 _
  have hfirst : "to_service_middleware" ∉
      ((impl.methods.map (·.name)).map (heldFor impl.name)).map bodyName := by
    intro hmem
    obtain ⟨name, _, hname⟩ := List.mem_map.mp hmem
    exact bodyName_ne_of_head (by decide) name hname
  have hne : ∀ name ∈ impl.methods.map (·.name), name ≠ "" :=
    fun name hmem => (not_reserved_of_mem himpl hfree hmem).2.2
  have hfront : ∀ name ∈ impl.methods.map (·.name), ¬ ['_', '_'] <+: name.toList :=
    fun name hmem hprefix => (not_reserved_of_mem himpl hfree hmem).2.1 (.inl hprefix)
  rw [implementorNames_text himpl h, List.map_cons, hplain, hheld, List.nodup_cons,
    List.nodup_map_iff bodyName_injective, nodup_map_heldFor_iff hnames hne hfront]
  simp only [List.forall_mem_map, hfirst, not_false_eq_true, true_and]

/-- The module of a service block has the names that the block says. -/
theorem ImplDef.namespaces : impl.Namespaces service service.text := by
  have hfields : service.wrapper.kept = "service_impl" ::
      (List.range service.registry.length).map fun index => "md_" ++ toString index := by
    rw [Wrapper.kept, fieldNames, Service.wrapper, Service.fields, List.length_map]
    exact congrArg (List.cons _) (List.map_congr_left fun index _ => fieldName_eq index)
  have hbodies : implementorNames service.text =
      "to_service_middleware" :: impl.methods.map fun method => "_" ++ method.name ++ "_impl" := by
    rw [implementorNames_text himpl h, List.map_map]
    rfl
  have hkept : (wrapperNames service.text).map (attributeWithin (className service.text 0)) =
      wrapperNames service.text := by
    conv_rhs => rw [← List.map_id (wrapperNames service.text)]
    refine List.map_congr_left fun name hmem => ?_
    exact attributeWithin_of_not_private
      (not_isPrivate_of_mem_wrapperNames himpl hfree h name hmem) _
  refine ⟨?_, nodup_wrapperNames himpl hnames hfree h, hkept, hbodies,
    nodup_implementorNames himpl hnames h, ?_⟩
  · rw [wrapperNames_text himpl h, hfields]
  · rw [(className_text himpl h).2]
    exact nodup_map_implementorNames_iff himpl hnames hfree h

end

/-- The classes of a module and their names. The names in a wrapper are distinct, and it has them as
they are written. The names in an implementing class are written distinct, but two of its bodies
have one name exactly when the name of a method consists of the bare name of the class, an
underscore and the name of a method that begins with an underscore itself. -/
theorem namespaces_of_generate {support text code : String} (h : generate support text = .ok code) :
    ∃ definition services, Generated support text code definition services ∧
      List.Forall₂ (fun impl service => impl.Namespaces service service.text)
        definition.impls services := by
  obtain ⟨definition, services, hgenerated⟩ := generate_eq_ok_iff.mp h
  have hfree := (wellFormed_of_parse hgenerated.parsed).names.unreserved
  refine ⟨definition, services, hgenerated, hgenerated.forall₂ ?_⟩
  intro impl hmem service himpl hnames hservice
  exact ImplDef.namespaces himpl hnames (hfree impl hmem) hservice

/-- A text with one block that has some methods. -/
def blockText (names : List String) : String := String.ofList
  ("@middleware_service(Shop, serve) impl Impl \x7b".toList ++ names.flatMap (fun name =>
    " rpc ".toList ++ name.toList ++ "(self, env, request: R)".toList ++
      " -> Result[P, E] \x60\x60\x60pass\x60\x60\x60".toList) ++ " \x7d".toList)

/-- A text whose methods are named as the method that makes the wrapper, as a body and as the rest
of a body. -/
def crossingText : String := blockText ["to_service_middleware", "_g_impl", "_g"]

/-- Their bodies have names of their own. -/
theorem namespaces_crossing : ∃ code, generate defaultSupport crossingText = .ok code ∧
    ∃ definition services, Generated defaultSupport crossingText code definition services ∧
      List.Forall₂ (fun impl service => impl.Namespaces service service.text ∧
        ((implementorNames service.text).map
          (attributeWithin (className service.text 1))).Nodup) definition.impls services := by
  have hparse : (parse crossingText).map (fun definition => (definition.services.isOk,
      definition.impls.map ImplDef.names)) =
        .ok (true, [("Impl", ["to_service_middleware", "_g_impl", "_g"])]) := by
    have htext : crossingText.toList = _ := String.toList_ofList
    rw [parse, htext]
    decide +kernel
  obtain ⟨code, hcode, hfound⟩ := exists_generate_eq_ok hparse
  obtain ⟨definition, services, hgenerated, hnamespaces⟩ := namespaces_of_generate hcode
  have hnames := hfound definition services hgenerated
  refine ⟨code, hcode, definition, services, hgenerated, forall₂_of_mem hnamespaces ?_⟩
  intro impl himpl service hspaces
  refine ⟨hspaces, hspaces.implementorKept.mpr ?_⟩
  have hblock : impl.names ∈ definition.impls.map ImplDef.names := List.mem_map_of_mem himpl
  rw [hnames, List.mem_singleton] at hblock
  obtain ⟨himplName, hmethods⟩ := Prod.mk.inj hblock
  have hfree : ∀ name ∈ impl.methods.map (·.name), ∀ other ∈ impl.methods.map (·.name),
      ¬ BeginsPlain other → name ≠ bareName impl.name ++ "_" ++ other := by
    rw [himplName, hmethods]
    decide +kernel
  simpa only [List.forall_mem_map] using hfree

/-- A text with a method that is named as the body of the other one makes its class have it. -/
def clashingText : String := blockText ["Impl__y", "_y"]

/-- Both methods are accepted, and the class has one name for their bodies. -/
theorem not_nodup_implementorNames : ∃ code, generate defaultSupport clashingText = .ok code ∧
    ∃ definition services, Generated defaultSupport clashingText code definition services ∧
      ¬ List.Forall₂ (fun _ service => ((implementorNames service.text).map
        (attributeWithin (className service.text 1))).Nodup) definition.impls services := by
  have hparse : (parse clashingText).map (fun definition => (definition.services.isOk,
      definition.impls.map ImplDef.names)) = .ok (true, [("Impl", ["Impl__y", "_y"])]) := by
    have htext : clashingText.toList = _ := String.toList_ofList
    rw [parse, htext]
    decide +kernel
  obtain ⟨code, hcode, hfound⟩ := exists_generate_eq_ok hparse
  obtain ⟨definition, services, hgenerated⟩ := generate_eq_ok_iff.mp hcode
  refine ⟨code, hcode, definition, services, hgenerated, fun hdistinct => ?_⟩
  have hfree := (wellFormed_of_parse hgenerated.parsed).names.unreserved
  have hclash : List.Forall₂ (fun impl service => ((implementorNames service.text).map
      (attributeWithin (className service.text 1))).Nodup →
        ∀ method ∈ impl.methods, ∀ other ∈ impl.methods, ¬ BeginsPlain other.name →
          method.name ≠ bareName impl.name ++ "_" ++ other.name) definition.impls services := by
    refine hgenerated.forall₂ fun impl himpl service hformed hnames hservice => ?_
    exact (ImplDef.namespaces hformed hnames (hfree impl himpl) hservice).implementorKept.mp
  have hblock : ("Impl", ["Impl__y", "_y"]) ∈ definition.impls.map ImplDef.names := by
    rw [hfound definition services hgenerated]
    exact List.mem_singleton_self _
  obtain ⟨impl, himpl, hblock⟩ := List.mem_map.mp hblock
  obtain ⟨himplName, hmethods⟩ := Prod.mk.inj hblock
  have hnames : ∀ name ∈ impl.methods.map (·.name), ∀ other ∈ impl.methods.map (·.name),
      ¬ BeginsPlain other → name ≠ bareName impl.name ++ "_" ++ other := by
    simpa only [List.forall_mem_map] using
      forall_mem_of_forall₂ (hclash.mp (fun _ _ h => h) hdistinct) impl himpl
  rw [hmethods, himplName] at hnames
  exact hnames "Impl__y" (by decide) "_y" (by decide) (by decide) (by decide +kernel)

end Interpose
