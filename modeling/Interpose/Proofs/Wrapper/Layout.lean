import Interpose.Proofs.Wrapper.Assembly
import Interpose.Proofs.Wrapper.Excerpt
import Interpose.Proofs.Wrapper.Single

/-!
# The layout of a service's classes

The lines that a service writes for its middlewares, by the numbers of their fields and contexts,
and the place of its lines in a generated module. When its texts stand on one line each, the two
classes of its text hold the lines that are written for them and no other ones.
-/

namespace Interpose

open Text

/-! ## What the lines say -/

/-- The line of the parameter for a middleware. -/
def parameterText (index : Nat) (path : String) : String :=
  "        md_" ++ toString index ++ ": " ++ path ++ ","

/-- The line that keeps a middleware in its field. -/
def keepText (index : Nat) : String :=
  "        self.md_" ++ toString index ++ " = md_" ++ toString index

/-- The lines of the hook before a call at a position of a method's middlewares. -/
def beforeText (position index : Nat) : List String :=
  ["        try:",
   "            ctx_" ++ toString position ++ " = await self.md_" ++ toString index ++
     ".before(request)",
   "        except self.md_" ++ toString index ++ ".Error as exc:",
   "            raise _into_status(exc) from exc"]

/-- The line of the hook after a call at a position of a method's middlewares. -/
def afterText (position index : Nat) : String :=
  "        await self.md_" ++ toString index ++ ".after(ctx_" ++ toString position ++ ", ret)"

/-- The first contexts as a tuple. A single one is followed by a comma. -/
def tupleText (count : Nat) : String :=
  "(" ++ ", ".intercalate ((List.range count).map fun position => "ctx_" ++ toString position) ++
    (if count = 1 then ",)" else ")")

/-- The lines of a method of the wrapper whose hooks run on fields with some indices. -/
def methodText (name error : String) (indices : List Nat) : List String :=
  (indices.zipIdx.flatMap fun hook => beforeText hook.2 hook.1) ++
  ["        envs = " ++ tupleText indices.length,
   "        try:",
   "            ret = _Result.ok(await self.service_impl._" ++ name ++ "_impl(envs, request))",
   "        except " ++ error ++ " as exc:",
   "            ret = _Result.err(_into_status(exc))"] ++
  (indices.zipIdx.map fun hook => afterText hook.2 hook.1) ++
  ["        return ret.unwrap()"]

/-! ## The lines as they are written -/

/-- The field of a middleware is named for its index. -/
theorem fieldName_eq (index : Nat) : fieldName index = "md_" ++ toString index := by
  rw [fieldName_natCast]
  rfl

/-- The parameters of a registry's middlewares are written with their indices and paths. -/
theorem parameterLines_eq (first : Nat) (registry : Registry) :
    parameterLines first (registry.map (·.path)) =
      registry.mapIdx fun index ref => parameterText (first + index) ref.path := by
  induction registry generalizing first with
  | nil => rfl
  | cons ref registry ih =>
    have htext (digits : String) : "        " ++ ("md_" ++ digits) = "        md_" ++ digits := by
      rw [← String.toList_inj]
      simp
    have hhead : "        " ++ fieldName first ++ ": " ++ ref.path ++ "," =
        parameterText first ref.path := by
      rw [fieldName_eq, htext]
      rfl
    have hindex : ∀ index, first + 1 + index = first + (index + 1) := by omega
    rw [List.map_cons, parameterLines, hhead, ih, List.mapIdx_cons]
    simp only [hindex, Nat.add_zero]

/-- The line that keeps a middleware in its field. -/
theorem keepingLine_fieldName (index : Nat) : keepingLine (fieldName index) = keepText index := by
  have htext (digits : String) :
      "        self." ++ ("md_" ++ digits) ++ " = " ++ ("md_" ++ digits) =
        "        self.md_" ++ digits ++ " = md_" ++ digits := by
    rw [← String.toList_inj]
    simp
  rw [fieldName_eq]
  exact htext _

/-- The lines of the hook before a call. -/
theorem lines_before (position index : Nat) :
    (Statement.before position index).lines = beforeText position index := by
  have hbind (context digits : String) : "            " ++ ("ctx_" ++ context) ++
      " = await self." ++ ("md_" ++ digits) ++ ".before(request)" =
        "            ctx_" ++ context ++ " = await self.md_" ++ digits ++ ".before(request)" := by
    rw [← String.toList_inj]
    simp
  have hexcept (digits : String) : "        except self." ++ ("md_" ++ digits) ++
      ".Error as exc:" = "        except self.md_" ++ digits ++ ".Error as exc:" := by
    rw [← String.toList_inj]
    simp
  rw [Statement.lines, fieldName_eq, hexcept]
  exact congrArg (fun line => ["        try:", line, _, _]) (hbind _ _)

/-- The line of the hook after a call. -/
theorem lines_after (position index : Nat) :
    (Statement.after position index).lines = [afterText position index] := by
  have hline (context digits : String) : "        await self." ++ ("md_" ++ digits) ++ ".after(" ++
      ("ctx_" ++ context) ++ ", ret)" =
        "        await self.md_" ++ digits ++ ".after(ctx_" ++ context ++ ", ret)" := by
    rw [← String.toList_inj]
    simp
  rw [Statement.lines, fieldName_eq]
  exact congrArg (fun line => [line]) (hline _ _)

/-- The tuple of contexts in the text of a call. -/
theorem contextTuple_eq (count : Nat) : contextTuple count = tupleText count := by
  unfold contextTuple tupleText
  split
  · rfl
  · rename_i hne
    rw [if_neg hne]
    rfl

/-- Hooks in order are the hooks at each position. -/
theorem hooks_eq_map (statement : Nat → Int → Statement) (position : Nat) (indices : List Nat) :
    hooks statement position (indices.map fun index : Nat => (index : Int)) =
      (indices.zipIdx position).map fun hook => statement hook.2 hook.1 := by
  induction indices generalizing position with
  | nil => rfl
  | cons index indices ih =>
    rw [List.map_cons, hooks, ih, List.zipIdx_cons, List.map_cons]

/-- A method of the wrapper is written as its hooks on some fields around its call. -/
theorem lines_statements {rpc : Rpc} {indices : List Nat}
    (hindices : rpc.indices = indices.map fun index : Nat => (index : Int))
    (hlength : rpc.middlewares.length = indices.length) :
    rpc.statements.flatMap Statement.lines = methodText rpc.name rpc.error.name indices := by
  have hcall : "            ret = _Result.ok(await self." ++ implementationField ++ "." ++
      bodyName rpc.name ++ "(envs, request))" =
        "            ret = _Result.ok(await self.service_impl._" ++ rpc.name ++
          "_impl(envs, request))" := by
    rw [← String.toList_inj]
    simp [implementationField, bodyName]
  have hbefore : (hooks .before 0 rpc.indices).flatMap Statement.lines =
      indices.zipIdx.flatMap fun hook => beforeText hook.2 hook.1 := by
    simp only [hindices, hooks_eq_map, List.flatMap_map, lines_before]
  have hafter : (hooks .after 0 rpc.indices).flatMap Statement.lines =
      indices.zipIdx.map fun hook => afterText hook.2 hook.1 := by
    simp only [hindices, hooks_eq_map, List.flatMap_map, lines_after]
    exact List.map_eq_flatMap.symm
  rw [Rpc.statements, List.flatMap_append, List.flatMap_append, List.flatMap_append, hbefore,
    hafter, hlength]
  simp only [List.flatMap_cons, List.flatMap_nil, Statement.lines, contextTuple_eq, hcall]
  rfl

/-! ## The parts of the two classes -/

/-- The line that opens a wrapper. -/
def Wrapper.title (wrapper : Wrapper) : String :=
  "class " ++ wrapper.name ++ "(" ++ wrapper.interface ++ "):"

/-- The lines of a wrapper after the one that opens it and before its methods. -/
def Wrapper.head (wrapper : Wrapper) : List String :=
  ["    \"\"\"Runs middleware hooks around " ++ wrapper.implementor ++ ".\"\"\"",
   "",
   "    def __init__(",
   "        self,",
   "        " ++ implementationField ++ ": " ++ wrapper.implementor ++ ","] ++
  parameterLines 0 wrapper.fields ++
  ["    ) -> None:"] ++
  wrapper.kept.map keepingLine

/-- The line that opens a method of a wrapper. -/
def WrapperMethod.title (method : WrapperMethod) : String :=
  "    async def " ++ method.name ++ "(self, request: " ++ method.request ++ ") -> " ++
    method.response ++ ":"

/-- A method is an empty line, its title and its statements. -/
theorem WrapperMethod.lines_eq (method : WrapperMethod) :
    method.lines = "" :: method.title :: method.statements.flatMap Statement.lines := rfl

/-- The line that opens an implementing class. -/
def Implementor.title (implementor : Implementor) : String :=
  "class " ++ implementor.name ++ basesText implementor.bases ++ ":"

/-- The lines of an implementing class after the one that opens it and before its bodies. -/
def Implementor.head (implementor : Implementor) : List String :=
  ["    def to_service_middleware(",
   "        self,"] ++
  parameterLines 0 implementor.fields ++
  ["    ):",
   "        \"\"\"Wrap this service with its middlewares and build the server object.\"\"\"",
   "        return " ++ implementor.server ++ "(",
   "            " ++ implementor.wrapper ++ "(" ++
     ", ".intercalate implementor.passed ++ ")",
   "        )"]

/-- The class of a wrapper is two empty lines, its title, its head and its methods. -/
theorem Wrapper.lines_eq (wrapper : Wrapper) : wrapper.lines =
    ["", "", wrapper.title] ++ wrapper.head ++ wrapper.methods.flatMap WrapperMethod.lines := rfl

/-- The implementing class is two empty lines, its title, its head and the bodies. -/
theorem Implementor.lines_eq (implementor : Implementor) : implementor.lines =
    ["", "", implementor.title] ++ implementor.head ++
      implementor.bodies.flatMap HeldBody.lines := rfl

/-- The line that opens a body. -/
def HeldBody.title (body : HeldBody) : String :=
  "    async def " ++ bodyName body.method ++ "(" ++ body.params ++ ") -> " ++ body.response ++ ":"

/-- The lines of a wrapper after the one that opens it, up to the one that opens the next class. -/
def Wrapper.inner (wrapper : Wrapper) : List String :=
  wrapper.head ++ wrapper.methods.flatMap WrapperMethod.lines ++ ["", ""]

/-- The lines of an implementing class after the one that opens it, with an empty one at the end. -/
def Implementor.inner (implementor : Implementor) : List String :=
  implementor.head ++ (implementor.bodies.flatMap fun body =>
    "" :: body.title :: linesOf (indentedBody body.text)) ++ [""]

/-- The text of a service's two classes. -/
def Service.text (service : Service) : String := textOfLines service.lines

/-- The texts of services one after the other are the lines of all of them. -/
theorem join_text (services : List Service) :
    String.join (services.map Service.text) = textOfLines (services.flatMap Service.lines) := by
  induction services with
  | nil => rfl
  | cons service services ih =>
    rw [List.map_cons, String.join_cons, ih, List.flatMap_cons, Service.text, textOfLines_append]

/-- The text of a service stands in a module between those of the services around it. -/
theorem moduleText_append (support : String) (imports : List Import) (before after : List Service)
    (service : Service) : moduleText support imports (before ++ service :: after) =
      moduleText support imports before ++ service.text ++
        String.join (after.map Service.text) := by
  rw [moduleText, List.flatMap_append, List.flatMap_cons, ← List.append_assoc, ← List.append_assoc,
    textOfLines_append, textOfLines_append, join_text]
  rfl

/-! ## Lines inside a class -/

/-- A line inside a class is empty or has a margin. -/
def Inner (line : String) : Prop := line = "" ∨ begins "    " line = true

/-- A line in the body of a class's method. -/
def Deep (line : String) : Prop := begins "        " line = true

instance (line : String) : Decidable (Deep line) :=
  inferInstanceAs (Decidable (begins "        " line = true))

/-- A line within a method is a line within a class. -/
theorem Deep.inner {line : String} (h : Deep line) : Inner line :=
  .inr (begins_of_begins_append "    " h)

/-- A line within a method is not empty. -/
theorem Deep.ne_empty {line : String} (h : Deep line) : (line == "") = false := by
  rw [beq_eq_false_iff_ne]
  rintro rfl
  exact absurd h (by decide)

/-- No line within a class begins a class. -/
theorem Inner.not_class {line : String} (h : Inner line) : begins "class " line = false := by
  rcases h with rfl | h
  · decide
  · exact begins_eq_false_of_begins h (by decide) (by decide)

/-- The line of a parameter begins with the front of its name. -/
theorem begins_of_mem_parameterLines (first : Nat) (types : List String) :
    ∀ line ∈ parameterLines first types, begins "        md_" line = true := by
  induction types generalizing first with
  | nil => simp [parameterLines]
  | cons type types ih =>
    rw [parameterLines]
    exact List.forall_mem_cons.mpr ⟨by simp [begins, fieldName, fieldFront], ih _⟩

/-- The parameters of a class stand within a method. -/
theorem deep_parameterLines (first : Nat) (types : List String) :
    ∀ line ∈ parameterLines first types, Deep line := by
  intro line hmem
  exact begins_of_begins_append "md_" (begins_of_mem_parameterLines first types line hmem)

/-- The line that keeps a field stands within a method. -/
theorem deep_keepingLine (name : String) : Deep (keepingLine name) := by
  unfold keepingLine
  simp [Deep, begins]

/-- The lines of a statement stand within a method. -/
theorem Statement.deep_lines (statement : Statement) : ∀ line ∈ statement.lines, Deep line := by
  cases statement <;> simp [Statement.lines, Deep, begins]

/-- The title of a method of a wrapper begins a method. -/
theorem WrapperMethod.begins_title (method : WrapperMethod) :
    begins "    async def " method.title = true := by
  unfold title
  simp [begins]

/-- Nothing before the methods of a wrapper opens one. -/
theorem Wrapper.not_method_of_mem_head (wrapper : Wrapper) :
    ∀ line ∈ wrapper.head, begins "    async def " line = false := by
  simp only [Wrapper.head, List.forall_mem_append, List.forall_mem_map]
  refine ⟨⟨⟨by simp [begins, List.isPrefixOf], fun line hmem => ?_⟩, by decide⟩, fun name _ => ?_⟩
  · exact begins_eq_false_of_begins (deep_parameterLines _ _ line hmem) (by decide) (by decide)
  · exact begins_eq_false_of_begins (deep_keepingLine name) (by decide) (by decide)

/-- The title of a body begins a method. -/
theorem HeldBody.begins_title (body : HeldBody) : begins "    async def " body.title = true := by
  unfold title
  simp [begins]

/-- The title of a wrapper begins a class. -/
theorem Wrapper.begins_title (wrapper : Wrapper) : begins "class " wrapper.title = true := by
  unfold title
  simp [begins]

/-- The title of the implementing class begins a class. -/
theorem Implementor.begins_title (implementor : Implementor) :
    begins "class " implementor.title = true := by
  unfold title
  simp [begins]

/-- The lines of a wrapper between the ones that open classes are inside it. -/
theorem Wrapper.inner_of_mem (wrapper : Wrapper) : ∀ line ∈ wrapper.inner, Inner line := by
  have hhead : ∀ line ∈ wrapper.head, Inner line := by
    simp only [Wrapper.head, List.forall_mem_append, List.forall_mem_map]
    refine ⟨⟨⟨?_, fun line hmem => (deep_parameterLines _ _ line hmem).inner⟩, ?_⟩,
      fun name _ => (deep_keepingLine name).inner⟩
    · simp [Inner, begins]
    · simp [Inner, begins]
  have hmethods : ∀ line ∈ wrapper.methods.flatMap WrapperMethod.lines, Inner line := by
    simp only [List.forall_mem_flatMap, WrapperMethod.lines_eq, List.forall_mem_cons]
    refine fun method _ => ⟨.inl rfl, .inr ?_, ?_⟩
    · exact begins_of_begins_append "async def " method.begins_title
    · exact fun statement _ line hmem => (statement.deep_lines line hmem).inner
  rw [Wrapper.inner, List.forall_mem_append, List.forall_mem_append]
  exact ⟨⟨hhead, hmethods⟩, by simp [Inner]⟩

/-- A line of an indented body does not begin with a text that is not blank so far. -/
theorem begins_eq_false_of_shallow {front line : String} (h : Shallow line.toList)
    (hfront : isBlankLine (front.toList.take 8) = false) : begins front line = false := by
  rw [← Bool.not_eq_true, begins_eq_true_iff]
  rintro ⟨rest, hline⟩
  rw [Shallow, ← hline, List.take_append, isBlankLine_append, Bool.and_eq_true] at h
  simp [h.1] at hfront

/-- No line within the implementing class begins a class. -/
theorem Implementor.not_class_of_mem_inner (implementor : Implementor) :
    ∀ line ∈ implementor.inner, begins "class " line = false := by
  have hhead : ∀ line ∈ implementor.head, Inner line := by
    simp only [Implementor.head, List.forall_mem_append]
    refine ⟨⟨?_, fun line hmem => (deep_parameterLines _ _ line hmem).inner⟩, ?_⟩
    · simp [Inner, begins]
    · simp [Inner, begins]
  have hbodies : ∀ line ∈ (implementor.bodies.flatMap fun body =>
      "" :: body.title :: linesOf (indentedBody body.text)), begins "class " line = false := by
    simp only [List.forall_mem_flatMap, List.forall_mem_cons]
    refine fun body _ => ⟨by decide, ?_, fun line hmem => ?_⟩
    · exact begins_eq_false_of_begins body.begins_title (by decide) (by decide)
    · exact begins_eq_false_of_shallow (shallow_of_mem_linesOf hmem) (by decide)
  rw [Implementor.inner, List.forall_mem_append, List.forall_mem_append]
  exact ⟨⟨fun line hmem => (hhead line hmem).not_class, hbodies⟩, by decide⟩

/-- Nothing before the bodies of an implementing class opens one. -/
theorem Implementor.not_method_of_mem_head (implementor : Implementor) :
    ∀ line ∈ implementor.head, begins "    async def " line = false := by
  simp only [Implementor.head, List.forall_mem_append]
  refine ⟨⟨by decide, fun line hmem => ?_⟩, by simp [begins, List.isPrefixOf]⟩
  exact begins_eq_false_of_begins (deep_parameterLines _ _ line hmem) (by decide) (by decide)

/-- The lines of an implementing class that open methods with awaited answers open its bodies. -/
theorem Implementor.filter_inner (implementor : Implementor) :
    implementor.inner.filter (begins "    async def ") = implementor.bodies.map HeldBody.title := by
  have hhead : implementor.head.filter (begins "    async def ") = [] := by
    rw [List.filter_eq_nil_iff]
    simpa only [Bool.not_eq_true] using implementor.not_method_of_mem_head
  have hbody : ∀ text, (linesOf (indentedBody text)).filter (begins "    async def ") = [] := by
    intro text
    rw [List.filter_eq_nil_iff]
    intro line hmem
    rw [Bool.not_eq_true]
    exact begins_eq_false_of_shallow (shallow_of_mem_linesOf hmem) (by decide)
  have hempty : begins "    async def " "" = false := by decide
  have hbodies : (implementor.bodies.flatMap fun body =>
      "" :: body.title :: linesOf (indentedBody body.text)).filter (begins "    async def ") =
        implementor.bodies.map HeldBody.title := by
    simp only [List.filter_flatMap, List.filter_cons, hempty, HeldBody.begins_title, hbody,
      Bool.false_eq_true, if_true, if_false]
    exact List.map_eq_flatMap.symm
  rw [Implementor.inner, List.filter_append, List.filter_append, hhead, hbodies]
  simp [hempty]

/-! ## Lines as they are written -/

@[simp] theorem oneLine_fieldName (index : Int) : OneLine (fieldName index) := by
  have hindex : OneLine (toString index) := by
    cases index with
    | ofNat n => exact oneLine_toString n
    | negSucc n => exact oneLine_append.mpr ⟨by decide, oneLine_toString (n + 1)⟩
  exact oneLine_append.mpr ⟨by decide, hindex⟩

@[simp] theorem oneLine_contextName (position : Nat) : OneLine (contextName position) :=
  oneLine_append.mpr ⟨by decide, oneLine_toString position⟩

/-- The name of a body is on one line when that of its method is. -/
@[simp] theorem oneLine_bodyName {method : String} :
    OneLine (bodyName method) ↔ OneLine method := by
  have hends : OneLine "_" ∧ OneLine "_impl" := by decide
  simp [bodyName, hends]

/-- The name of a wrapper is on one line when that of the implementing class is. -/
@[simp] theorem oneLine_wrapperName {implementor : String} :
    OneLine (wrapperName implementor) ↔ OneLine implementor := by
  have hend : OneLine "MiddlewareWrapper" := by decide
  simp [wrapperName, hend]

/-- Texts that are joined by commas stand on one line when each of them does. -/
theorem oneLine_commas {texts : List String} (h : ∀ text ∈ texts, OneLine text) :
    OneLine (", ".intercalate texts) := oneLine_intercalate (by decide) h

@[simp] theorem oneLine_contextTuple (count : Nat) : OneLine (contextTuple count) := by
  have hnames : OneLine (", ".intercalate ((List.range count).map contextName)) :=
    oneLine_commas (List.forall_mem_map.mpr fun position _ => oneLine_contextName position)
  unfold contextTuple
  split
  · decide
  · simp only [oneLine_append, hnames, and_true]
    decide

/-- The names of fields are on one line. -/
theorem oneLine_of_mem_fieldNames {count : Nat} {name : String} (h : name ∈ fieldNames count) :
    OneLine name := by
  obtain ⟨index, _, rfl⟩ := mem_fieldNames.mp h
  exact oneLine_fieldName index

/-- Parameters are on one line each when their types are on one line. -/
theorem oneLine_parameterLines {types : List String} (h : ∀ type ∈ types, OneLine type)
    (first : Nat) : ∀ line ∈ parameterLines first types, OneLine line := by
  induction types generalizing first with
  | nil => simp [parameterLines]
  | cons type types ih =>
    obtain ⟨htype, hrest⟩ := List.forall_mem_cons.mp h
    rw [parameterLines]
    refine List.forall_mem_cons.mpr ⟨?_, ih hrest _⟩
    simp only [oneLine_append, oneLine_fieldName, htype, and_true]
    decide

/-- A field is kept on one line. -/
theorem oneLine_keepingLine {name : String} (h : OneLine name) : OneLine (keepingLine name) := by
  unfold keepingLine
  simp only [oneLine_append, h, and_true]
  decide

/-- Bases on one line each are written on one line. -/
theorem oneLine_basesText {bases : List String} (h : ∀ base ∈ bases, OneLine base) :
    OneLine (basesText bases) := by
  have hjoined := oneLine_commas h
  unfold basesText
  split
  · decide
  · simp only [oneLine_append, hjoined, and_true]
    decide

/-- The lines of a hook stand on one line each. -/
theorem oneLine_hooks {statement : Nat → Int → Statement}
    (h : ∀ position index, ∀ line ∈ (statement position index).lines, OneLine line)
    (position : Nat) (indices : List Int) :
    ∀ line ∈ (hooks statement position indices).flatMap Statement.lines, OneLine line := by
  induction indices generalizing position with
  | nil => simp [hooks]
  | cons index indices ih =>
    rw [hooks, List.flatMap_cons, List.forall_mem_append]
    exact ⟨h position index, ih _⟩

/-- The statements of a method with types on one line take one line each. -/
theorem Rpc.Lined.oneLine_statements {rpc : Rpc} (h : rpc.Lined) :
    ∀ line ∈ rpc.statements.flatMap Statement.lines, OneLine line := by
  have hname : OneLine rpc.name := oneLine_of_isName h.name
  have hbefore : ∀ position index, ∀ line ∈ (Statement.before position index).lines,
      OneLine line := by
    intro position index
    simp only [Statement.lines, List.forall_mem_cons, oneLine_append, oneLine_fieldName,
      oneLine_contextName, and_true]
    decide
  have hafter : ∀ position index, ∀ line ∈ (Statement.after position index).lines,
      OneLine line := by
    intro position index
    simp only [Statement.lines, List.forall_mem_cons, oneLine_append, oneLine_fieldName,
      oneLine_contextName, and_true]
    decide
  have hcall : ∀ line ∈ [Statement.gather rpc.middlewares.length,
      .call rpc.name rpc.error.name].flatMap Statement.lines, OneLine line := by
    simp only [List.flatMap_cons, List.flatMap_nil, Statement.lines, List.forall_mem_append,
      List.forall_mem_cons, oneLine_append, oneLine_contextTuple, oneLine_bodyName, hname, h.error,
      and_true]
    decide
  rw [Rpc.statements, List.flatMap_append, List.flatMap_append, List.flatMap_append]
  simp only [List.forall_mem_append]
  exact ⟨⟨⟨oneLine_hooks hbefore _ _, hcall⟩, oneLine_hooks hafter _ _⟩, by decide⟩

/-- The lines of the wrapper of such a service are single lines. -/
theorem Service.Lined.oneLine_wrapper {service : Service} (h : service.Lined) :
    ∀ line ∈ service.wrapper.lines, OneLine line := by
  have hmethods : ∀ line ∈ service.wrapper.methods.flatMap WrapperMethod.lines, OneLine line := by
    rw [List.forall_mem_flatMap]
    intro method hmem
    obtain ⟨rpc, hrpc, rfl⟩ := List.mem_map.mp hmem
    have hlined := h.methods rpc hrpc
    have hname : OneLine rpc.name := oneLine_of_isName hlined.name
    rw [WrapperMethod.lines, List.forall_mem_append]
    refine ⟨?_, hlined.oneLine_statements⟩
    simp only [Rpc.wrapperMethod, List.forall_mem_cons, oneLine_append, hname, hlined.request,
      hlined.response, and_true]
    decide
  have hkept : ∀ line ∈ service.wrapper.kept.map keepingLine, OneLine line := by
    rw [List.forall_mem_map]
    intro name hmem
    rcases List.mem_cons.mp hmem with rfl | hmem
    · exact oneLine_keepingLine (by decide)
    · exact oneLine_keepingLine (oneLine_of_mem_fieldNames hmem)
  simp only [Wrapper.lines, List.forall_mem_append]
  refine ⟨⟨⟨⟨?_, oneLine_parameterLines h.fields 0⟩, by decide⟩, hkept⟩, hmethods⟩
  simp only [Service.wrapper, List.forall_mem_cons, oneLine_append, oneLine_wrapperName,
    h.implementor, h.interface, and_true]
  decide

/-- The title of the implementing class is a single line. -/
theorem Service.Lined.oneLine_title {service : Service} (h : service.Lined) :
    OneLine service.implementorClass.title := by
  have hbases : OneLine (basesText (service.bases.map TypeExpr.canonical)) :=
    oneLine_basesText (List.forall_mem_map.mpr h.bases)
  simp only [Implementor.title, Service.implementorClass, oneLine_append, h.implementor, hbases,
    and_true]
  decide

/-- The lines of the head of the implementing class are single lines. -/
theorem Service.Lined.oneLine_head {service : Service} (h : service.Lined) :
    ∀ line ∈ service.implementorClass.head, OneLine line := by
  have hpassed : OneLine (", ".intercalate service.implementorClass.passed) := by
    refine oneLine_commas fun name hmem => ?_
    rcases List.mem_cons.mp hmem with rfl | hmem
    · decide
    · exact oneLine_of_mem_fieldNames hmem
  have hserver : OneLine service.implementorClass.server := h.server
  have hwrapper : OneLine service.implementorClass.wrapper := oneLine_wrapperName.mpr h.implementor
  simp only [Implementor.head, List.forall_mem_append]
  refine ⟨⟨by decide, oneLine_parameterLines h.fields 0⟩, ?_⟩
  simp only [List.forall_mem_cons, oneLine_append, hserver, hwrapper, hpassed, and_true]
  decide

/-- The title of a body is a single line. -/
theorem Rpc.Lined.oneLine_title {rpc : Rpc} (h : rpc.Lined) : OneLine rpc.heldBody.title := by
  have hname : OneLine rpc.name := oneLine_of_isName h.name
  have hparams : OneLine (", ".intercalate (rpc.params.map Param.text)) :=
    oneLine_commas (List.forall_mem_map.mpr h.params)
  unfold HeldBody.title Rpc.heldBody
  simp only [oneLine_append, oneLine_bodyName, hname, hparams, h.response, and_true]
  decide

/-! ## The two classes of a service's text -/

/-- The lines of a service's text are those of its two classes. -/
theorem Service.Lined.linesOf_text {service : Service} (h : service.Lined) :
    linesOf service.text = ["", ""] ++ service.wrapper.title :: (service.wrapper.inner ++
      service.implementorClass.title :: service.implementorClass.inner) := by
  have hwrapper : service.wrapper.lines ++ ["", ""] =
      ["", ""] ++ service.wrapper.title :: service.wrapper.inner := by
    simp only [Wrapper.lines, Wrapper.inner, Wrapper.head, List.append_assoc, List.cons_append,
      List.nil_append]
    rfl
  have himplementor : service.implementorClass.lines =
      ["", ""] ++ (service.implementorClass.title :: service.implementorClass.head) ++
        service.implementorClass.bodies.flatMap HeldBody.lines := by
    simp only [Implementor.lines, Implementor.head, List.append_assoc, List.cons_append,
      List.nil_append]
    rfl
  have hbody : ∀ body ∈ service.implementorClass.bodies, body.lines.flatMap linesOf =
      "" :: body.title :: linesOf (indentedBody body.text) := by
    intro body hmem
    obtain ⟨rpc, hrpc, rfl⟩ := List.mem_map.mp hmem
    have hlines : rpc.heldBody.lines =
        ["", rpc.heldBody.title] ++ [indentedBody rpc.heldBody.text] := rfl
    have htitles : ∀ line ∈ ["", rpc.heldBody.title], OneLine line :=
      List.forall_mem_cons.mpr ⟨by decide, by simpa using (h.methods rpc hrpc).oneLine_title⟩
    rw [hlines, List.flatMap_append, flatMap_linesOf htitles, List.flatMap_singleton]
    rfl
  have hbodies : (service.implementorClass.bodies.flatMap HeldBody.lines).flatMap linesOf =
      service.implementorClass.bodies.flatMap fun body =>
        "" :: body.title :: linesOf (indentedBody body.text) := by
    rw [List.flatMap_assoc]
    exact List.flatMap_congr hbody
  have hinner : linesOf service.text = service.wrapper.lines ++ ["", ""] ++
      service.implementorClass.title :: service.implementorClass.inner := by
    rw [text, linesOf_textOfLines, lines, List.flatMap_append, flatMap_linesOf h.oneLine_wrapper,
      himplementor, List.flatMap_append, List.flatMap_append, hbodies,
      flatMap_linesOf (List.forall_mem_cons.mpr ⟨h.oneLine_title, h.oneLine_head⟩),
      flatMap_linesOf (by decide),
      Implementor.inner]
    simp only [List.append_assoc, List.cons_append, List.nil_append]
  rw [hinner, hwrapper]
  simp only [List.cons_append, List.nil_append]

/-- The lines of a service's text that open classes open its wrapper and its implementing class. -/
theorem Service.Lined.filter_linesOf_text {service : Service} (h : service.Lined) :
    (linesOf service.text).filter (begins "class ") =
      [service.wrapper.title, service.implementorClass.title] := by
  have hwrapper : service.wrapper.inner.filter (begins "class ") = [] := by
    rw [List.filter_eq_nil_iff]
    intro line hmem
    simp [(service.wrapper.inner_of_mem line hmem).not_class]
  have himplementor : service.implementorClass.inner.filter (begins "class ") = [] := by
    rw [List.filter_eq_nil_iff]
    intro line hmem
    simp [service.implementorClass.not_class_of_mem_inner line hmem]
  have hempty : ["", ""].filter (begins "class ") = [] := by decide
  rw [h.linesOf_text, List.filter_append, hempty, List.filter_cons_of_pos (Wrapper.begins_title _),
    List.filter_append, hwrapper, List.filter_cons_of_pos (Implementor.begins_title _),
    himplementor]
  rfl

/-- The first class of a service's text is its wrapper. -/
theorem Service.Lined.firstClass_text {service : Service} (h : service.Lined) :
    firstClass service.text = service.wrapper.inner := by
  rw [firstClass, h.linesOf_text]
  exact linesBetween_append (by decide) (Wrapper.begins_title _)
    (fun line hmem => (service.wrapper.inner_of_mem line hmem).not_class)
    (Implementor.begins_title _)

/-- The second class of a service's text is its implementing class. -/
theorem Service.Lined.secondClass_text {service : Service} (h : service.Lined) :
    secondClass service.text = service.implementorClass.inner := by
  rw [secondClass, h.linesOf_text, linesAfter_append (by decide) (Wrapper.begins_title _)]
  exact linesAfter_append (fun line hmem => (service.wrapper.inner_of_mem line hmem).not_class)
    (Implementor.begins_title _)

end Interpose
