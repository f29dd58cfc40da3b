import Interpose.Proofs.Definition.RoundTrip
import Interpose.Proofs.Wrapper.Layout

/-!
# The wiring of a generated module

What the lines of a service's two classes say about its middlewares. The parameters of the wrapper,
its fields, the parameters of the method that makes it and the arguments that this method passes on
all count through the registry. Each method of the wrapper runs the hooks of the middlewares that it
declares, in their order, on the fields whose parameters have their paths.
-/

namespace Interpose

open Source Text

/-! ## The parts of a wrapper -/

/-- The lines of a wrapper's parameters are those of the implementation and of its middlewares. -/
theorem Wrapper.parameters_inner (wrapper : Wrapper) :
    linesBetween (begins "    def __init__(") (begins "    )") wrapper.inner =
      ["        self,", "        service_impl: " ++ wrapper.implementor ++ ","] ++
        parameterLines 0 wrapper.fields := by
  have hinner : wrapper.inner =
      ["    \"\"\"Runs middleware hooks around " ++ wrapper.implementor ++ ".\"\"\"", ""] ++
        "    def __init__(" ::
          ((["        self,", "        service_impl: " ++ wrapper.implementor ++ ","] ++
            parameterLines 0 wrapper.fields) ++ "    ) -> None:" :: (wrapper.kept.map keepingLine ++
              (wrapper.methods.flatMap WrapperMethod.lines ++ ["", ""]))) := by
    simp only [Wrapper.inner, Wrapper.head, List.append_assoc, List.cons_append, List.nil_append]
    rfl
  rw [hinner]
  refine linesBetween_append ?_ (by decide) ?_ (by decide)
  · simp [begins, List.isPrefixOf]
  · rw [List.forall_mem_append]
    refine ⟨by simp [begins, List.isPrefixOf], fun line hmem => ?_⟩
    exact begins_eq_false_of_begins (deep_parameterLines _ _ line hmem) (by decide) (by decide)

/-- What follows the head of a wrapper begins with an empty line. -/
theorem exists_cons_of_methods (methods : List WrapperMethod) :
    ∃ rest, methods.flatMap WrapperMethod.lines ++ ["", ""] = "" :: rest := by
  cases methods with
  | nil => exact ⟨_, rfl⟩
  | cons method methods => exact ⟨_, rfl⟩

/-- The lines that keep a wrapper's parameters stand after them, up to an empty line. -/
theorem Wrapper.kept_inner (wrapper : Wrapper) :
    linesBetween (begins "    ) -> None:") (· == "") wrapper.inner =
      wrapper.kept.map keepingLine := by
  obtain ⟨rest, hrest⟩ := exists_cons_of_methods wrapper.methods
  have hinner : wrapper.inner =
      (["    \"\"\"Runs middleware hooks around " ++ wrapper.implementor ++ ".\"\"\"", "",
        "    def __init__(", "        self,",
        "        " ++ implementationField ++ ": " ++ wrapper.implementor ++ ","] ++
          parameterLines 0 wrapper.fields) ++
        "    ) -> None:" :: (wrapper.kept.map keepingLine ++ "" :: rest) := by
    simp only [Wrapper.inner, Wrapper.head, List.append_assoc, List.cons_append, List.nil_append,
      ← hrest]
  rw [hinner]
  refine linesBetween_append ?_ (by decide) ?_ rfl
  · rw [List.forall_mem_append]
    refine ⟨by simp [begins, List.isPrefixOf], fun line hmem => ?_⟩
    exact begins_eq_false_of_begins (deep_parameterLines _ _ line hmem) (by decide) (by decide)
  · rw [List.forall_mem_map]
    exact fun name _ => (deep_keepingLine name).ne_empty

theorem WrapperMethod.title_eq (method : WrapperMethod) :
    method.title = "    async def " ++ method.name ++ "(" ++
      ("self, request: " ++ method.request ++ ") -> " ++ method.response ++ ":") := by
  unfold title
  rw [← String.toList_inj]
  simp

theorem WrapperMethod.deep_of_mem (method : WrapperMethod) :
    ∀ line ∈ method.statements.flatMap Statement.lines, Deep line := by
  rw [List.forall_mem_flatMap]
  exact fun statement _ => statement.deep_lines

/-- No line of a method opens one. -/
theorem WrapperMethod.not_method_of_mem (method : WrapperMethod) :
    ∀ line ∈ method.statements.flatMap Statement.lines, begins "    async def " line = false :=
  fun line hline =>
    begins_eq_false_of_begins (method.deep_of_mem line hline) (by decide) (by decide)

section

variable {wrapper : Wrapper} (hnames : (wrapper.methods.map (·.name)).Nodup)
  (hplain : ∀ method ∈ wrapper.methods, '(' ∉ method.name.toList) {method : WrapperMethod}
  (hmem : method ∈ wrapper.methods)
include hnames hplain hmem

/-- The lines of a method stand after the one that opens it, up to an empty line. -/
theorem Wrapper.method_inner :
    linesBetween (begins ("    async def " ++ method.name ++ "(")) (· == "") wrapper.inner =
      method.statements.flatMap Statement.lines := by
  obtain ⟨after, hafter⟩ : ∃ after,
      linesAfter (begins ("    async def " ++ method.name ++ "(")) wrapper.inner =
        method.statements.flatMap Statement.lines ++
          (sections WrapperMethod.title (·.statements.flatMap Statement.lines) after ++ ["", ""]) :=
    linesAfter_sections (by decide) (fun method => ⟨_, method.title_eq⟩) hnames hplain
      wrapper.not_method_of_mem_head WrapperMethod.not_method_of_mem hmem
  obtain ⟨rest, hrest⟩ := exists_cons_of_methods after
  have hlines : linesAfter (begins ("    async def " ++ method.name ++ "(")) wrapper.inner =
      method.statements.flatMap Statement.lines ++ "" :: rest := hrest ▸ hafter
  rw [linesBetween, hlines]
  exact linesUntil_append (fun line hline => (method.deep_of_mem line hline).ne_empty) rfl

/-- A method is opened by one line of its own. -/
theorem Wrapper.title_inner :
    wrapper.inner.find? (begins ("    async def " ++ method.name ++ "(")) = some method.title :=
  find?_sections (by decide) (fun method => ⟨_, method.title_eq⟩) hnames hplain
    wrapper.not_method_of_mem_head WrapperMethod.not_method_of_mem hmem

end

/-! ## The parts of an implementing class -/

/-- The lines of the parameters with which a wrapper is made are those of its middlewares. -/
theorem Implementor.parameters_inner (implementor : Implementor) :
    linesBetween (begins "    def to_service_middleware(") (begins "    )") implementor.inner =
      "        self," :: parameterLines 0 implementor.fields := by
  have hinner : ∃ rest, implementor.inner = [] ++ "    def to_service_middleware(" ::
      (("        self," :: parameterLines 0 implementor.fields) ++ "    ):" :: rest) := by
    simp only [Implementor.inner, Implementor.head, List.append_assoc, List.cons_append,
      List.nil_append]
    exact ⟨_, rfl⟩
  obtain ⟨rest, hrest⟩ := hinner
  rw [hrest]
  refine linesBetween_append (by simp) (by decide) ?_ (by decide)
  refine List.forall_mem_cons.mpr ⟨by decide, fun line hmem => ?_⟩
  exact begins_eq_false_of_begins (deep_parameterLines _ _ line hmem) (by decide) (by decide)

/-- The line that begins the answer names the server, and the line after it makes the wrapper. -/
theorem Implementor.exists_split_answer (implementor : Implementor) :
    ∃ before rest, implementor.inner = before ++ ("        return " ++ implementor.server ++ "(") ::
        ("            " ++ implementor.wrapper ++ "(" ++ ", ".intercalate implementor.passed ++
          ")") :: rest ∧
      (∀ line ∈ before, begins "        return " line = false) ∧
      begins "        return " ("        return " ++ implementor.server ++ "(") = true := by
  have hinner : ∃ rest, implementor.inner =
      (["    def to_service_middleware(", "        self,"] ++
        parameterLines 0 implementor.fields ++ ["    ):",
      "        \"\"\"Wrap this service with its middlewares and build the server object.\"\"\""]) ++
      ("        return " ++ implementor.server ++ "(") ::
        ("            " ++ implementor.wrapper ++ "(" ++ ", ".intercalate implementor.passed ++
          ")") :: rest := by
    simp only [Implementor.inner, Implementor.head, List.append_assoc, List.cons_append,
      List.nil_append]
    exact ⟨_, rfl⟩
  obtain ⟨rest, hrest⟩ := hinner
  refine ⟨_, rest, hrest, ?_, by simp [begins]⟩
  simp only [List.forall_mem_append]
  refine ⟨⟨by decide, fun line hmem => ?_⟩, by decide⟩
  exact begins_eq_false_of_begins (begins_of_mem_parameterLines _ _ line hmem) (by decide)
    (by decide)

/-- The line after the one that begins the answer makes the wrapper. -/
theorem Implementor.made_inner (implementor : Implementor) :
    (linesAfter (begins "        return ") implementor.inner).head? =
      some ("            " ++ implementor.wrapper ++ "(" ++ ", ".intercalate implementor.passed ++
        ")") := by
  obtain ⟨before, rest, hinner, hbefore, hanswer⟩ := implementor.exists_split_answer
  rw [hinner, linesAfter_append hbefore hanswer, List.head?_cons]

/-! ## What the text of a service says -/

/-- The lines of the parameters with which a wrapper is made. -/
def wrapperParameters (text : String) : List String :=
  linesBetween (begins "    def __init__(") (begins "    )") (firstClass text)

/-- The lines of the parameters of the method that makes a wrapper. -/
def serviceParameters (text : String) : List String :=
  linesBetween (begins "    def to_service_middleware(") (begins "    )") (secondClass text)

/-- What the text of a service says about its wiring. -/
structure ImplDef.Wired (impl : ImplDef String) (service : Service) (text : String) : Prop where
  /-- The text opens the wrapper and then the implementing class. -/
  classes : (linesOf text).filter (begins "class ") =
    ["class " ++ wrapperName impl.name ++ "(" ++ service.endpoint.interface ++ "):",
     "class " ++ impl.name ++ Interpose.basesText (service.bases.map TypeExpr.canonical) ++ ":"]
  /-- The wrapper takes the implementation and one middleware for each entry of the registry. -/
  parameters : wrapperParameters text =
    ["        self,", "        service_impl: " ++ impl.name ++ ","] ++
      service.registry.mapIdx fun index ref => parameterText index ref.path
  /-- It keeps each of them in the field of its name. -/
  kept : linesBetween (begins "    ) -> None:") (· == "") (firstClass text) =
    "        self.service_impl = service_impl" ::
      (List.range service.registry.length).map keepText
  /-- The implementing class takes the same middlewares. -/
  passed : serviceParameters text =
    "        self," :: service.registry.mapIdx fun index ref => parameterText index ref.path
  /-- It makes the wrapper around itself and them. -/
  made : (linesAfter (begins "        return ") (secondClass text)).head? =
    some ("            " ++ wrapperName impl.name ++ "(" ++ ", ".intercalate
      ("self" :: (List.range service.registry.length).map fun index => "md_" ++ toString index) ++
        ")")
  /-- Each method runs its hooks on the fields whose parameters have the declared paths. The
  implementing class defines the body that it calls. -/
  methods : ∀ method ∈ impl.methods, ∃ indices : List Nat,
    List.Forall₂ (fun index path =>
      ((wrapperParameters text).drop 2)[index]? = some (parameterText index path))
      indices method.middlewarePaths ∧
    linesBetween (begins ("    async def " ++ method.name ++ "(")) (· == "") (firstClass text) =
      methodText method.name method.errorName indices ∧
    ∃ line ∈ secondClass text, begins ("    async def _" ++ method.name ++ "_impl(") line = true
  /-- The implementing class defines the bodies of the methods, and nothing else of their kind. -/
  bodies : (secondClass text).filter (begins "    async def ") = service.methods.map fun rpc =>
    "    async def _" ++ rpc.name ++ "_impl(" ++ ", ".intercalate (rpc.params.map Param.text) ++
      ") -> " ++ rpc.response.canonical ++ ":"

/-- The indices of a method that is in step with a registry count through it from zero. -/
theorem Rpc.InStep.exists_indices {registry : Registry} {rpc : Rpc} (h : rpc.InStep registry) :
    ∃ indices : List Nat, rpc.indices = (indices.map fun index : Nat => (index : Int)) ∧
      List.Forall₂ (fun index path => (registry.map (·.path))[index]? = some path)
        indices rpc.paths := by
  unfold InStep at h
  unfold paths
  generalize rpc.indices = positions at h
  generalize rpc.middlewares = refs at h
  induction h with
  | nil => exact ⟨[], rfl, .nil⟩
  | cons hfirst _ ih =>
    obtain ⟨index, rfl, hpath⟩ := hfirst
    obtain ⟨indices, rfl, hpaths⟩ := ih
    exact ⟨index :: indices, rfl, .cons hpath hpaths⟩

theorem Rpc.title_heldBody (rpc : Rpc) : rpc.heldBody.title =
    "    async def _" ++ rpc.name ++ "_impl(" ++ ", ".intercalate (rpc.params.map Param.text) ++
      ") -> " ++ rpc.response.canonical ++ ":" := by
  have htext (name params response : String) :
      "    async def " ++ ("_" ++ name ++ "_impl") ++ "(" ++ params ++ ") -> " ++ response ++ ":" =
        "    async def _" ++ name ++ "_impl(" ++ params ++ ") -> " ++ response ++ ":" := by
    rw [← String.toList_inj]
    simp
  exact htext _ _ _

section

variable {service : Service} (h : service.Lined) (hnames : (service.methods.map (·.name)).Nodup)
  {rpc : Rpc} (hrpc : rpc ∈ service.methods)
include h hnames hrpc

/-- The wrapper's methods have distinct names, without parentheses. -/
theorem Service.Lined.names_wrapper : (service.wrapper.methods.map (·.name)).Nodup ∧
    (∀ method ∈ service.wrapper.methods, '(' ∉ method.name.toList) ∧
    rpc.wrapperMethod ∈ service.wrapper.methods := by
  refine ⟨?_, ?_, List.mem_map_of_mem hrpc⟩
  · rw [Service.wrapper, List.map_map]
    exact hnames
  · refine List.forall_mem_map.mpr fun other hother => ?_
    exact notMem_of_isName (by decide) (by decide) (h.methods other hother).name

/-- The wrapper's method is written with its hooks on the fields of its indices. -/
theorem Service.Lined.method_firstClass {indices : List Nat}
    (hindices : rpc.indices = indices.map fun index : Nat => (index : Int))
    (hlength : rpc.middlewares.length = indices.length) :
    linesBetween (begins ("    async def " ++ rpc.name ++ "(")) (· == "")
      (firstClass service.text) = methodText rpc.name rpc.error.name indices := by
  obtain ⟨hmethods, hplain, hmem⟩ := names_wrapper h hnames hrpc
  have hinner := Wrapper.method_inner hmethods hplain hmem
  rw [h.firstClass_text, ← lines_statements hindices hlength]
  exact hinner

/-- The wrapper's method is opened by its name. -/
theorem Service.Lined.title_firstClass :
    (firstClass service.text).find? (begins ("    async def " ++ rpc.name ++ "(")) =
      some rpc.wrapperMethod.title := by
  obtain ⟨hmethods, hplain, hmem⟩ := names_wrapper h hnames hrpc
  have hinner := Wrapper.title_inner hmethods hplain hmem
  rw [h.firstClass_text]
  exact hinner

end

/-- The bodies of the implementing class are opened by the names of its methods. -/
theorem Service.Lined.bodies_secondClass {service : Service} (h : service.Lined) :
    (secondClass service.text).filter (begins "    async def ") =
      service.methods.map fun rpc => rpc.heldBody.title := by
  rw [h.secondClass_text, Implementor.filter_inner]
  exact List.map_map

/-- The text of a block's service says how it is wired. -/
theorem ImplDef.wired_of_lined {impl : ImplDef String} {service : Service}
    (h : impl.service = .ok service) (hlined : service.Lined)
    (hnames : (impl.methods.map (·.name)).Nodup) : impl.Wired service service.text := by
  obtain ⟨himplementor, hmethods⟩ := service_eq_ok h
  have hparameters : parameterLines 0 service.fields =
      service.registry.mapIdx fun index ref => parameterText index ref.path := by
    rw [Service.fields, parameterLines_eq]
    simp only [Nat.zero_add]
  have hwrapper : wrapperParameters service.text =
      ["        self,", "        service_impl: " ++ impl.name ++ ","] ++
        service.registry.mapIdx fun index ref => parameterText index ref.path := by
    rw [wrapperParameters, hlined.firstClass_text, Wrapper.parameters_inner, ← himplementor,
      ← hparameters]
    rfl
  have hfields : fieldNames service.fields.length =
      (List.range service.registry.length).map fun index => "md_" ++ toString index := by
    rw [fieldNames, Service.fields, List.length_map]
    exact List.map_congr_left fun index _ => fieldName_eq index
  refine ⟨?_, hwrapper, ?_, ?_, ?_, fun method hmem => ?_, ?_⟩
  · rw [hlined.filter_linesOf_text, ← himplementor]
    rfl
  · rw [hlined.firstClass_text, Wrapper.kept_inner, Wrapper.kept, List.map_cons, fieldNames,
      Service.wrapper, Service.fields, List.length_map, List.map_map]
    refine congrArg₂ List.cons (by decide) (List.map_congr_left fun index _ => ?_)
    exact keepingLine_fieldName index
  · rw [serviceParameters, hlined.secondClass_text, Implementor.parameters_inner, ← hparameters]
    rfl
  · rw [hlined.secondClass_text, Implementor.made_inner, ← himplementor, ← hfields]
    rfl
  · obtain ⟨rpc, hrpc, hdeclares, hstep⟩ := exists_mem_of_forall₂ hmethods hmem
    obtain ⟨indices, hindices, hpaths⟩ := hstep.exists_indices
    have hlength : rpc.middlewares.length = indices.length := by
      rw [hpaths.length_eq, Rpc.paths, List.length_map]
    refine ⟨indices, ?_, ?_, rpc.heldBody.title, ?_, ?_⟩
    · rw [← hdeclares.middlewares, hwrapper]
      refine hpaths.imp fun index path hpath => ?_
      rw [List.getElem?_map, Option.map_eq_some_iff] at hpath
      obtain ⟨ref, href, rfl⟩ := hpath
      simp [href]
    · rw [← names_of_service h] at hnames
      rw [← hdeclares.name, ← hdeclares.error]
      exact hlined.method_firstClass hnames hrpc hindices hlength
    · have htitle : rpc.heldBody.title ∈
          (secondClass service.text).filter (begins "    async def ") := by
        rw [hlined.bodies_secondClass]
        exact List.mem_map_of_mem hrpc
      exact (List.mem_filter.mp htitle).1
    · rw [Rpc.title_heldBody, hdeclares.name]
      simp [begins]
  · rw [hlined.bodies_secondClass]
    exact List.map_congr_left fun rpc _ => rpc.title_heldBody

/-- In a module with the service of a parsed block, whatever its imports and its other services are,
the text of this service stands in one piece and says how it is wired. -/
theorem wired_of_parse {text : String} {definition : Definition String}
    (hparse : parse text = .ok definition) {impl : ImplDef String} (himpl : impl ∈ definition.impls)
    {service : Service} (hservice : impl.service = .ok service) :
    (∀ (support : String) (imports : List Import) (before after : List Service),
      moduleText support imports (before ++ service :: after) =
        moduleText support imports before ++ service.text ++
          String.join (after.map Service.text)) ∧
    impl.Wired service service.text := by
  have hformed := wellFormed_of_parse hparse
  have hlined := ImplDef.lined_of_service (hformed.impls impl himpl) hservice
  refine ⟨fun support imports before after =>
      moduleText_append support imports before after service,
    ImplDef.wired_of_lined hservice hlined (hformed.names.methods impl himpl)⟩

/-- A text whose methods share a middleware and one of whose methods lists another one twice. -/
def storeText : String :=
  "@middleware_service(Shop, serve) impl Store \x7b " ++
    "@middleware(log.Log, Auth, log.Log) rpc buy(self, env, r: In) -> Result[Out, Bad] " ++
    "\x60\x60\x60 pass \x60\x60\x60@middleware(Auth) rpc list(self, env, r: In) -> " ++
    "Result[Out, Bad] \x60\x60\x60\x60\x60\x60 \x7d"

/-- The span at a column of the text's only line. -/
private def column (n : Int) : Span := ⟨some 1, some n⟩

/-- A method of the text, by the columns of its name and of its parenthesis. -/
private def selling (name body : String) (span opening : Int) (note : Annotation) :
    MethodDef String where
  name
  params := [⟨"self", none, column (opening + 1)⟩, ⟨"env", none, column (opening + 7)⟩,
    ⟨"r", some ⟨"In", [], column (opening + 15)⟩, column (opening + 12)⟩]
  result := some ⟨"Result",
    [⟨"Out", [], column (opening + 29)⟩, ⟨"Bad", [], column (opening + 34)⟩],
    column (opening + 22)⟩
  body
  annotations := [note]
  span := column span

/-- The block of the text. -/
def store : ImplDef String where
  name := "Store"
  bases := []
  methods := [
    selling "buy" "pass" 87 90 ⟨"middleware", some [⟨.path, "log.Log", column 59⟩,
      ⟨.path, "Auth", column 68⟩, ⟨.path, "log.Log", column 74⟩], column 47⟩,
    selling "list" "" 163 167 ⟨"middleware", some [⟨.path, "Auth", column 153⟩], column 141⟩]
  annotations := [⟨"middleware_service", some [⟨.path, "Shop", column 21⟩,
    ⟨.path, "serve", column 27⟩], column 1⟩]
  span := column 1

/-- The service of the block: the registry is in the order of paths. -/
def storeService : Service :=
  let rpc (name body : String) (span opening : Int) (middlewares : Registry) (indices : List Int) :
      Rpc := {
    name
    request := ⟨"In", [], column (opening + 15)⟩
    response := ⟨"Out", [], column (opening + 29)⟩
    error := ⟨"Bad", [], column (opening + 34)⟩
    middlewares
    indices
    params := (selling name body span opening ⟨"", none, .none⟩).params
    body
    span := column span }
  { implementor := "Store"
    bases := []
    methods := [
      rpc "buy" "pass" 87 90
        [⟨"log.Log", column 59⟩, ⟨"Auth", column 68⟩, ⟨"log.Log", column 74⟩] [1, 0, 1],
      rpc "list" "" 163 167 [⟨"Auth", column 153⟩] [0]]
    registry := [⟨"Auth", column 68⟩, ⟨"log.Log", column 59⟩]
    endpoint := ⟨"Shop", "serve"⟩ }

theorem service_store : store.service = .ok storeService := by
  have hrpcs : store.methods.mapM MethodDef.rpc =
      .ok (storeService.methods.map ({ · with indices := [] })) := by decide +kernel
  have hafter : MiddlewareRef.atMost ⟨"log.Log", column 59⟩ ⟨"Auth", column 68⟩ = false := by decide
  have hsort : Registry.sort [⟨"log.Log", column 59⟩, ⟨"Auth", column 68⟩] =
      storeService.registry := by
    simp [Registry.sort, List.mergeSort, hafter, storeService]
  refine ImplDef.service_eq_ok_iff.mpr ⟨rfl, rfl, by decide +kernel, _, hrpcs, ?_⟩
  exact Registry.build_eq_ok_iff.mpr ⟨hsort.symm, by decide +kernel⟩

theorem wired_store :
    parse storeText = .ok ⟨[], [store]⟩ ∧ store.service = .ok storeService ∧
      store.Wired storeService storeService.text := by
  have htext : storeText.toList = _ := toList_append_of_eq (toList_append_of_eq
    (toList_append_of_eq String.toList_ofList String.toList_ofList) String.toList_ofList)
    String.toList_ofList
  have hparse : parse storeText = .ok ⟨[], [store]⟩ := by
    rw [parse, htext]
    decide +kernel
  exact ⟨hparse, service_store, (wired_of_parse hparse List.mem_cons_self service_store).2⟩

end Interpose
