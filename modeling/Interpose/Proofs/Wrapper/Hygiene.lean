import Interpose.Proofs.Grammar.Marks
import Interpose.Proofs.Wrapper.Calls

/-!
# Names that a generated function captures

A function of a generated module looks a name of the definition file up when it runs: a method of a
wrapper looks up the class of errors that it catches, and the method that makes the wrapper looks up
the server. A name that is also a parameter of the function, or that a line of it binds, is a local
of the function and is not looked up outside. Which names are locals does not depend on the names of
the file, so some of them are captured.
-/

namespace Interpose

open Source Text

/-! ## What a line binds -/

/-- The name that a line binds: the word before an equals sign, or the last word of a clause that
catches errors. -/
def boundIn (line : String) : Option String :=
  let word := itemName line.toList
  let rest := (line.toList.dropWhile (· = ' ')).drop word.toList.length
  if [' ', '=', ' '].isPrefixOf rest then some word
  else if word = "except" then some (itemName (lastWord line).toList)
  else none

/-- What a line binds depends on the word that it begins with and on what follows the word. -/
theorem boundIn_eq {line word : String} {blanks rest : List Char}
    (hline : line.toList = blanks ++ (word.toList ++ rest)) (hblanks : ∀ c ∈ blanks, c = ' ')
    (hword : word.toList.all isNameRest = true) (hne : word ≠ "") (hrest : EndsName rest) :
    boundIn line = if [' ', '=', ' '].isPrefixOf rest then some word
      else if word = "except" then some (itemName (lastWord line).toList) else none := by
  have hname : itemName line.toList = word := hline ▸ itemName_eq hblanks hword hne hrest
  rw [boundIn, hname, hline, dropWhile_blanks hblanks hword hne, List.drop_left]

/-- An assignment binds the word before its sign. -/
theorem boundIn_assign {line word : String} {blanks value : List Char}
    (hline : line.toList = blanks ++ (word.toList ++ ' ' :: '=' :: ' ' :: value))
    (hblanks : ∀ c ∈ blanks, c = ' ') (hword : word.toList.all isNameRest = true)
    (hne : word ≠ "") : boundIn line = some word := by
  rw [boundIn_eq hline hblanks hword hne (by simp [EndsName, isNameRest]), if_pos (by simp)]

/-- A clause that catches errors binds the error. -/
theorem boundIn_except {error : String} (h : ∀ c ∈ error.toList.head?, c ≠ '=') :
    boundIn ("        except " ++ error ++ " as exc:") = some "exc" := by
  have hline : ("        except " ++ error ++ " as exc:").toList =
      List.replicate 8 ' ' ++ ("except".toList ++ ' ' :: (error.toList ++ " as exc:".toList)) := by
    simp [List.replicate_succ]
  have hlast : ("        except " ++ error ++ " as exc:").toList =
      ("        except " ++ error ++ " as").toList ++ ' ' :: "exc:".toList := by simp
  have hassign :
      [' ', '=', ' '].isPrefixOf (' ' :: (error.toList ++ " as exc:".toList)) = false := by
    cases hcs : error.toList with
    | nil => decide
    | cons c cs => simpa [List.isPrefixOf] using fun hc => absurd hc.symm (h c (by simp [hcs]))
  rw [boundIn_eq hline (by simp) (by decide) (by decide) (by simp [EndsName, isNameRest]), hassign,
    lastWord_eq (by decide) hlast]
  decide

/-! ## What a method of a wrapper binds -/

theorem all_isNameRest_toString (n : Nat) : (toString n).toList.all isNameRest = true := by
  refine List.all_eq_true.mpr fun c hc => ?_
  simp [isNameRest, Char.isAlphanum, isDigit_of_mem_toString hc]

theorem all_isNameRest_contextName (position : Nat) :
    (contextName position).toList.all isNameRest = true := by
  rw [contextName, String.toList_append, List.all_append, all_isNameRest_toString]
  decide

/-- A hook before a call binds its context, and an error on the way. -/
theorem filterMap_boundIn_beforeText (position index : Nat) :
    (beforeText position index).filterMap boundIn = [contextName position, "exc"] := by
  have htry : boundIn "        try:" = none := by decide
  have hcontext : boundIn ("            ctx_" ++ toString position ++ " = await self.md_" ++
      toString index ++ ".before(request)") = some (contextName position) := by
    have hline : ("            ctx_" ++ toString position ++ " = await self.md_" ++
        toString index ++ ".before(request)").toList =
          "            ".toList ++ ((contextName position).toList ++ ' ' :: '=' :: ' ' ::
            ("await self.md_" ++ toString index ++ ".before(request)").toList) := by
      simp [contextName]
    exact boundIn_assign hline (by simp) (all_isNameRest_contextName position)
      (by simp [contextName])
  have hexcept : boundIn ("        except self.md_" ++ toString index ++ ".Error as exc:") =
      some "exc" := by
    have hline : "        except self.md_" ++ toString index ++ ".Error as exc:" =
        "        except " ++ ("self.md_" ++ toString index ++ ".Error") ++ " as exc:" := by
      rw [← String.toList_inj]
      simp
    rw [hline]
    exact boundIn_except (by simp)
  have hraise : boundIn "            raise _into_status(exc) from exc" = none := by decide
  simp only [beforeText, List.filterMap_cons, List.filterMap_nil, htry, hcontext, hexcept, hraise]

/-- A hook after a call binds nothing. -/
theorem boundIn_afterText (position index : Nat) : boundIn (afterText position index) = none := by
  have hline : (afterText position index).toList = "        ".toList ++ ("await".toList ++
      ' ' :: ("self.md_" ++ toString index ++ ".after(ctx_" ++ toString position ++
        ", ret)").toList) := by
    unfold afterText
    simp
  have hassign : [' ', '=', ' '].isPrefixOf (' ' :: ("self.md_" ++ toString index ++
      ".after(ctx_" ++ toString position ++ ", ret)").toList) = false := by simp [List.isPrefixOf]
  rw [boundIn_eq hline (by simp) (by decide) (by decide) (by simp [EndsName, isNameRest]), hassign]
  simp

/-- The names that the lines of a method bind. -/
theorem filterMap_boundIn_methodText (name : String) {error : String}
    (herror : ∀ c ∈ error.toList.head?, c ≠ '=') (indices : List Nat) :
    (methodText name error indices).filterMap boundIn =
      (indices.zipIdx.flatMap fun hook => [contextName hook.2, "exc"]) ++
        ["envs", "ret", "exc", "ret"] := by
  have hbefore : (indices.zipIdx.flatMap fun hook => beforeText hook.2 hook.1).filterMap boundIn =
      indices.zipIdx.flatMap fun hook => [contextName hook.2, "exc"] := by
    rw [List.filterMap_flatMap]
    exact List.flatMap_congr fun hook _ => filterMap_boundIn_beforeText hook.2 hook.1
  have hafter : (indices.zipIdx.map fun hook => afterText hook.2 hook.1).filterMap boundIn =
      [] := by
    rw [List.filterMap_map, List.filterMap_eq_nil_iff]
    intro hook _
    rw [Function.comp_apply, boundIn_afterText]
  have henvs : boundIn ("        envs = " ++ tupleText indices.length) = some "envs" := by
    have hline : ("        envs = " ++ tupleText indices.length).toList = "        ".toList ++
        ("envs".toList ++ ' ' :: '=' :: ' ' :: (tupleText indices.length).toList) := by simp
    exact boundIn_assign hline (by simp) (by decide) (by decide)
  have htry : boundIn "        try:" = none := by decide
  have hcall : boundIn ("            ret = _Result.ok(await self.service_impl._" ++ name ++
      "_impl(envs, request))") = some "ret" := by
    have hline : ("            ret = _Result.ok(await self.service_impl._" ++ name ++
        "_impl(envs, request))").toList = "            ".toList ++ ("ret".toList ++
          ' ' :: '=' :: ' ' :: ("_Result.ok(await self.service_impl._" ++ name ++
            "_impl(envs, request))").toList) := by simp
    exact boundIn_assign hline (by simp) (by decide) (by decide)
  have herr : boundIn "            ret = _Result.err(_into_status(exc))" = some "ret" := by decide
  have hreturn : boundIn "        return ret.unwrap()" = none := by decide
  unfold methodText
  simp only [List.filterMap_append, List.filterMap_cons, List.filterMap_nil, hbefore, hafter, henvs,
    htry, hcall, boundIn_except herror, herr, hreturn, List.append_nil]

theorem mem_filterMap_boundIn_methodText (name : String) {error : String}
    (herror : ∀ c ∈ error.toList.head?, c ≠ '=') {indices : List Nat} {bound : String} :
    bound ∈ (methodText name error indices).filterMap boundIn ↔
      bound ∈ ["envs", "ret", "exc"] ∨
        ∃ position < indices.length, bound = contextName position := by
  have hhooks : (bound ∈ indices.zipIdx.flatMap fun hook => [contextName hook.2, "exc"]) ↔
      ∃ position < indices.length, bound = contextName position ∨ bound = "exc" := by
    simp only [List.mem_flatMap, List.mem_cons, List.not_mem_nil, or_false]
    constructor
    · rintro ⟨⟨index, position⟩, hmem, hbound⟩
      exact ⟨position, by simpa using List.snd_lt_of_mem_zipIdx hmem, hbound⟩
    · rintro ⟨position, hlt, hbound⟩
      refine ⟨(indices[position], position), ?_, hbound⟩
      rw [List.mk_mem_zipIdx_iff_getElem?]
      exact List.getElem?_eq_getElem hlt
  have hsame : ∀ bound : String, bound ∈ ["envs", "ret", "exc", "ret"] ↔
      bound ∈ ["envs", "ret", "exc"] := by
    intro bound
    simp only [List.mem_cons, List.not_mem_nil, or_false]
    tauto
  rw [filterMap_boundIn_methodText name herror, List.mem_append, hhooks, hsame]
  constructor
  · rintro (⟨position, hlt, rfl | rfl⟩ | hfixed)
    · exact .inr ⟨position, hlt, rfl⟩
    · exact .inl (by simp)
    · exact .inl hfixed
  · rintro (hfixed | ⟨position, hlt, rfl⟩)
    · exact .inr hfixed
    · exact .inl ⟨position, hlt, .inl rfl⟩

/-! ## Names of the file in a service's text -/

/-- The lines of a method of the first class in a text. -/
def methodLines (text name : String) : List String :=
  linesBetween (begins ("    async def " ++ name ++ "(")) (· == "") (firstClass text)

/-- The locals of a method of the first class: its parameters and what its lines bind. -/
def methodLocals (text name : String) : List String :=
  (((firstClass text).find? (begins ("    async def " ++ name ++ "("))).map
    (listedNames "    async def ")).getD [] ++ (methodLines text name).filterMap boundIn

/-- The name that a method looks up to catch errors of its body: the first one in the line after the
call. -/
def caughtName? (text name : String) : Option String :=
  (linesAfter (begins callFront) (methodLines text name)).head?.map (nameAfter "        except ")

/-- The locals of the method that makes the wrapper. Its lines bind none. -/
def serviceLocals (text : String) : List String :=
  (serviceParameters text).map fun line => itemName line.toList

/-- The name that the method looks up to build the server. -/
def serverName? (text : String) : Option String :=
  ((secondClass text).find? (begins "        return ")).map (nameAfter "        return ")

/-- A method catches what is named outside of it. -/
def CatchesOutside (text name : String) : Prop :=
  ∃ caught, caughtName? text name = some caught ∧ caught ∉ methodLocals text name

/-- The server is what is named outside of the method that builds it. -/
def ServesOutside (text : String) : Prop :=
  ∃ server, serverName? text = some server ∧ server ∉ serviceLocals text

/-- The first name of a path. -/
def firstName (path : String) : String := String.ofList (firstSegment path.toList)

/-- A dotted name begins with its first name. -/
theorem IsDotted.exists_firstName {path : String} (h : IsDotted path) :
    isName (firstName path).toList ∧
      ∃ more : String, path = firstName path ++ more ∧ ∀ c ∈ more.toList.head?, c = '.' := by
  obtain ⟨first, names, hfirst, _, hpath⟩ := h.exists_toList_eq
  have hhead : ∀ c ∈ (names.flatMap fun name => '.' :: name.toList).head?, c = '.' := by
    cases names with
    | nil => simp
    | cons name names => simp [eq_comm]
  have hname : firstName path = first := by
    rw [firstName, hpath, Grammar.firstSegment_append hfirst fun c hc => .inl (hhead c hc),
      String.ofList_toList]
  rw [hname]
  refine ⟨hfirst, String.ofList (names.flatMap fun name => '.' :: name.toList), ?_, ?_⟩
  · rw [← String.toList_inj, hpath]
    simp
  · rw [String.toList_ofList]
    exact hhead

/-- A dotted name begins with a character of a name. -/
theorem IsDotted.head_ne {path : String} (h : IsDotted path) (d : Char)
    (hd : isNameRest d = false) : ∀ c ∈ path.toList.head?, c ≠ d := by
  obtain ⟨hname, more, hpath, _⟩ := h.exists_firstName
  intro c hc
  rintro rfl
  rw [hpath, String.toList_append] at hc
  cases hcs : (firstName path).toList with
  | nil => simp [hcs, isName] at hname
  | cons e es =>
    rw [hcs] at hc
    obtain rfl : e = c := Option.some.inj hc
    rw [isNameRest_of_isName hname (by simp [hcs])] at hd
    cases hd

/-- The first name of a path is read off a line in which nothing more of a name follows the path. -/
theorem IsDotted.nameAfter_eq {path rest : String} (h : IsDotted path) (front : String)
    (hrest : ∀ c ∈ rest.toList.head?, isNameRest c = false) :
    nameAfter front (front ++ path ++ rest) = firstName path := by
  obtain ⟨hname, more, hpath, hmore⟩ := h.exists_firstName
  have hline : front ++ path ++ rest = front ++ firstName path ++ (more ++ rest) := by
    calc front ++ path ++ rest = front ++ (firstName path ++ more) ++ rest := by rw [← hpath]
      _ = front ++ firstName path ++ (more ++ rest) := by simp only [String.append_assoc]
  rw [hline]
  refine Interpose.nameAfter_eq front (all_isNameRest_of_isName hname) fun c hc => ?_
  rw [String.toList_append] at hc
  cases hcs : more.toList with
  | nil => exact hrest c (by simpa [hcs] using hc)
  | cons d ds =>
    rw [hcs] at hc hmore
    obtain rfl : d = c := Option.some.inj hc
    obtain rfl := hmore d rfl
    decide

/-! ## Captured names -/

/-- The server is named where the method that makes the wrapper begins its answer. -/
theorem Service.Lined.serverName?_text {service : Service} (h : service.Lined)
    (hserver : isName service.endpoint.server.toList) :
    serverName? service.text = some service.endpoint.server := by
  obtain ⟨before, rest, hinner, hbefore, hanswer⟩ := service.implementorClass.exists_split_answer
  have hnone : before.find? (begins "        return ") = none := by
    rw [List.find?_eq_none]
    simpa only [Bool.not_eq_true] using hbefore
  have hname : nameAfter "        return " ("        return " ++ service.endpoint.server ++ "(") =
      service.endpoint.server := by
    refine Interpose.nameAfter_eq _ (all_isNameRest_of_isName hserver) fun c hc => ?_
    obtain rfl : '(' = c := by simpa using hc
    decide
  have hline : (secondClass service.text).find? (begins "        return ") =
      some ("        return " ++ service.endpoint.server ++ "(") := by
    rw [h.secondClass_text, hinner, List.find?_append, hnone, Option.none_or,
      List.find?_cons_of_pos hanswer]
    rfl
  rw [serverName?, hline, Option.map_some, hname]

theorem all_isNameRest_fieldName (index : Nat) :
    (fieldName index).toList.all isNameRest = true := by
  rw [fieldName_eq, String.toList_append, List.all_append, all_isNameRest_toString]
  decide

/-- The locals of the method that makes the wrapper are its parameters. -/
theorem ImplDef.Wired.serviceLocals_eq {impl : ImplDef String} {service : Service} {text : String}
    (h : impl.Wired service text) :
    serviceLocals text = receiver :: fieldNames service.registry.length := by
  have hparameter : ∀ (index : Nat) (path : String),
      itemName (parameterText index path).toList = fieldName index := by
    intro index path
    have hline : (parameterText index path).toList =
        "        ".toList ++ ((fieldName index).toList ++ ':' :: ' ' :: (path ++ ",").toList) := by
      rw [fieldName_eq]
      unfold parameterText
      simp
    rw [hline]
    exact itemName_eq (by simp) (all_isNameRest_fieldName index) (by simp [fieldName_eq])
      (by simp [EndsName, isNameRest])
  have hreceiver : itemName "        self,".toList = receiver := by decide
  have hfields : (service.registry.mapIdx fun index ref => parameterText index ref.path).map
      (fun line => itemName line.toList) = fieldNames service.registry.length := by
    refine List.ext_getElem (by simp [fieldNames]) fun index _ _ => ?_
    rw [List.getElem_map, List.getElem_mapIdx, hparameter]
    simp [fieldNames]
  rw [serviceLocals, h.passed, List.map_cons, hreceiver, hfields]

section

variable {impl : ImplDef String} (himpl : impl.WellFormed IsClean)
  (hnames : (impl.methods.map (·.name)).Nodup) {service : Service}
  (h : impl.service = .ok service)
include himpl hnames h

/-- The server of a block is looked up outside unless it has the name of a parameter. -/
theorem ImplDef.servesOutside_iff : ServesOutside service.text ↔
    service.endpoint.server ≠ receiver ∧
      ∀ index < service.registry.length, service.endpoint.server ≠ fieldName (index : Nat) := by
  rw [ServesOutside, (lined_of_service himpl h).serverName?_text (isName_endpoint himpl h).2,
    (wired himpl hnames h).serviceLocals_eq]
  simp only [Option.some.injEq, exists_eq_left', List.mem_cons, not_or, mem_fieldNames]
  refine and_congr_right fun _ => ⟨fun hout index hlt hname => ?_, ?_⟩
  · exact hout ⟨index, hlt, hname.symm⟩
  · rintro hout ⟨index, hlt, hname⟩
    exact hout index hlt hname.symm

variable {method : MethodDef String} (hmem : method ∈ impl.methods)
include hmem

/-- A method is opened with a receiver and a request as its parameters. -/
theorem ImplDef.listedNames_title : ((firstClass service.text).find?
    (begins ("    async def " ++ method.name ++ "("))).map (listedNames "    async def ") =
      some ["self", "request"] := by
  obtain ⟨rpc, hrpc, hkeeps⟩ := exists_mem_of_forall₂ (keeps_of_service h) hmem
  have hmethod := himpl.methods method hmem
  have htype := (wellNamed_of_service himpl h rpc hrpc).request
  have hplain : '(' ∉ rpc.name.toList :=
    hkeeps.name ▸ notMem_of_isName (by decide) (by decide) hmethod.name
  have hself : (⟨"self", none, .none⟩ : Param).WellFormed := ⟨by decide, by simp⟩
  have hname : isName "request".toList := by decide
  have hrequest : (⟨"request", some rpc.request, .none⟩ : Param).WellFormed :=
    ⟨hname, by simpa using htype⟩
  have htitle : rpc.wrapperMethod.title = "    async def " ++ rpc.name ++ "(" ++
      ", ".intercalate ["self", "request: " ++ rpc.request.canonical] ++ ")" ++
        (" -> " ++ rpc.response.canonical ++ ":") := by
    unfold WrapperMethod.title Rpc.wrapperMethod
    rw [← String.toList_inj]
    simp
  rw [← names_of_service h] at hnames
  rw [← hkeeps.name, (lined_of_service himpl h).title_firstClass hnames hrpc, Option.map_some,
    htitle]
  exact congrArg some (listedNames_eq hplain (.cons hself.isItem (.cons hrequest.isItem .nil))
    (by simp))

omit hnames in
theorem ImplDef.isDotted_errorName : IsDotted method.errorName := by
  obtain ⟨rpc, hrpc, hdeclares, _⟩ := exists_mem_of_forall₂ (service_eq_ok h).2 hmem
  exact hdeclares.error ▸ (wellNamed_of_service himpl h rpc hrpc).error.name

/-- The locals of a method are its parameters, three variables and one for each context. -/
theorem ImplDef.mem_methodLocals_iff {name : String} :
    name ∈ methodLocals service.text method.name ↔
      name ∈ ["self", "request", "envs", "ret", "exc"] ∨
        ∃ position < method.middlewarePaths.length, name = contextName position := by
  obtain ⟨indices, hpaths, hlines, _⟩ := (wired himpl hnames h).methods method hmem
  have herror := (isDotted_errorName himpl h hmem).head_ne '=' (by decide)
  have hfixed : ["self", "request", "envs", "ret", "exc"] =
      ["self", "request"] ++ ["envs", "ret", "exc"] := rfl
  rw [methodLocals, listedNames_title himpl hnames h hmem, Option.getD_some, methodLines, hlines,
    List.mem_append, mem_filterMap_boundIn_methodText method.name herror, ← hpaths.length_eq,
    hfixed, List.mem_append, or_assoc]

/-- A method looks up the first name of its error. -/
theorem ImplDef.caughtName?_eq :
    caughtName? service.text method.name = some (firstName method.errorName) := by
  obtain ⟨indices, _, hlines, _⟩ := (wired himpl hnames h).methods method hmem
  obtain ⟨before, rest, hsplit, hbefore, hcall⟩ :=
    exists_split_methodText method.name method.errorName indices
  have hname : nameAfter "        except " ("        except " ++ method.errorName ++ " as exc:") =
      firstName method.errorName :=
    (isDotted_errorName himpl h hmem).nameAfter_eq _ (by simp [isNameRest])
  rw [caughtName?, methodLines, hlines, hsplit, linesAfter_append hbefore hcall, List.head?_cons,
    Option.map_some, hname]

/-- The class of errors that a method catches is looked up outside unless its path begins with the
name of a local. -/
theorem ImplDef.catchesOutside_iff : CatchesOutside service.text method.name ↔
    firstName method.errorName ∉ ["self", "request", "envs", "ret", "exc"] ∧
      ∀ position < method.middlewarePaths.length,
        firstName method.errorName ≠ contextName position := by
  rw [CatchesOutside, caughtName?_eq himpl hnames h hmem]
  simp only [Option.some.injEq, exists_eq_left', mem_methodLocals_iff himpl hnames h hmem, not_or,
    not_exists, not_and, ne_eq]

end

/-- Each function of the module of a file looks a name of the file up: a method of a wrapper the
first name of its error, and the method that makes the wrapper the name of the server. The name is
found outside of the function exactly when it is none of the function's locals: some fixed ones and
one for each middleware. -/
theorem looksOutside_iff {support text code : String} (h : generate support text = .ok code) :
    ∃ definition services, Generated support text code definition services ∧
      List.Forall₂ (fun impl service =>
        (∀ method ∈ impl.methods,
          (CatchesOutside service.text method.name ↔
            firstName method.errorName ∉ ["self", "request", "envs", "ret", "exc"] ∧
              ∀ position < method.middlewarePaths.length,
                firstName method.errorName ≠ contextName position)) ∧
        impl.endpoint = .ok service.endpoint ∧
        (ServesOutside service.text ↔ service.endpoint.server ≠ receiver ∧
          ∀ index < service.registry.length, service.endpoint.server ≠ fieldName (index : Nat)))
        definition.impls services := by
  obtain ⟨definition, services, hgenerated⟩ := generate_eq_ok_iff.mp h
  refine ⟨definition, services, hgenerated, hgenerated.forall₂ ?_⟩
  intro impl _ service himpl hnames hservice
  exact ⟨fun method hmem => ImplDef.catchesOutside_iff himpl hnames hservice hmem,
    ImplDef.endpoint_of_service hservice, ImplDef.servesOutside_iff himpl hnames hservice⟩

/-- A text with one method, with a server and an error of some names. -/
def namingText (server error : String) : String :=
  "@middleware_service(Shop, " ++ server ++ ") impl A \x7b @middleware(Auth) " ++
    "rpc f(self, env, request: R) -> Result[P, " ++ error ++ "] \x60\x60\x60pass\x60\x60\x60 \x7d"

/-- The names of a file that the functions of its module look up: for each block the server's and
the first ones of its methods' errors. -/
def Definition.lookedUp (definition : Definition String) : List (Option String × List String) :=
  definition.impls.map fun impl => (impl.endpoint.toOption.map (·.server),
    impl.methods.map fun method => firstName method.errorName)

/-- Names that no function binds are found outside. -/
theorem looksOutside_unrelated : ∃ code,
    generate defaultSupport (namingText "serve" "errors.Bad") = .ok code ∧
    ∃ definition services,
      Generated defaultSupport (namingText "serve" "errors.Bad") code definition services ∧
      List.Forall₂ (fun impl service =>
        (∀ method ∈ impl.methods, CatchesOutside service.text method.name) ∧
          ServesOutside service.text) definition.impls services := by
  have hparse : (parse (namingText "serve" "errors.Bad")).map (fun definition =>
      (definition.services.isOk, definition.lookedUp)) =
        .ok (true, [(some "serve", ["errors"])]) := by decide +kernel
  obtain ⟨code, hcode, hfound⟩ := exists_generate_eq_ok hparse
  obtain ⟨definition, services, hgenerated, hlooks⟩ := looksOutside_iff hcode
  refine ⟨code, hcode, definition, services, hgenerated, forall₂_of_mem hlooks ?_⟩
  rintro impl himpl service ⟨hcatches, hendpoint, hserves⟩
  have hnames := List.mem_map_of_mem (f := fun impl : ImplDef String =>
    (impl.endpoint.toOption.map (·.server), impl.methods.map fun method =>
      firstName method.errorName)) himpl
  rw [← Definition.lookedUp, hfound definition services hgenerated, List.mem_singleton,
    hendpoint] at hnames
  obtain ⟨hserver, herrors⟩ := Prod.mk.inj hnames
  have hserver : service.endpoint.server = "serve" := Option.some.inj hserver
  constructor
  · intro method hmem
    have herror : firstName method.errorName = "errors" := by
      have hin := List.mem_map_of_mem (f := fun method : MethodDef String =>
        firstName method.errorName) hmem
      rwa [herrors, List.mem_singleton] at hin
    rw [hcatches method hmem, herror]
    refine ⟨by decide, fun position _ hname => ?_⟩
    have hlists := congrArg String.toList hname
    simp [contextName] at hlists
  · rw [hserves, hserver]
    refine ⟨by decide, fun index _ hname => ?_⟩
    have hlists := congrArg String.toList hname
    simp [fieldName_eq] at hlists

/-- A server with the name of the receiver and an error in a module with the name of the request are
accepted. Both names are captured. -/
theorem not_looksOutside : ∃ code,
    generate defaultSupport (namingText "self" "request.Bad") = .ok code ∧
    ∃ definition services,
      Generated defaultSupport (namingText "self" "request.Bad") code definition services ∧
      ¬ List.Forall₂ (fun impl service =>
        ∀ method ∈ impl.methods, CatchesOutside service.text method.name)
        definition.impls services ∧
      ¬ List.Forall₂ (fun _ service => ServesOutside service.text) definition.impls services := by
  have hparse : (parse (namingText "self" "request.Bad")).map (fun definition =>
      (definition.services.isOk, definition.lookedUp)) =
        .ok (true, [(some "self", ["request"])]) := by decide +kernel
  obtain ⟨code, hcode, hfound⟩ := exists_generate_eq_ok hparse
  obtain ⟨definition, services, hgenerated⟩ := generate_eq_ok_iff.mp hcode
  have hnames := hfound definition services hgenerated
  rw [Definition.lookedUp, List.map_eq_singleton_iff] at hnames
  obtain ⟨impl, himpls, hname⟩ := hnames
  obtain ⟨hserver, herrors⟩ := Prod.mk.inj hname
  have himpl : impl ∈ definition.impls := by simp [himpls]
  refine ⟨code, hcode, definition, services, hgenerated, fun hcatches => ?_, fun hserves => ?_⟩
  · have hfree : List.Forall₂ (fun impl service =>
        (∀ method ∈ impl.methods, CatchesOutside service.text method.name) →
          ∀ method ∈ impl.methods, firstName method.errorName ≠ "request")
        definition.impls services := by
      refine hgenerated.forall₂ fun impl _ service himpl hnames hservice hall method hmem => ?_
      have houtside := (ImplDef.catchesOutside_iff himpl hnames hservice hmem).mp (hall method hmem)
      intro hrequest
      exact houtside.1 (by simp [hrequest])
    obtain ⟨method, hmethods, herror⟩ := List.map_eq_singleton_iff.mp herrors
    exact forall_mem_of_forall₂ (hfree.mp (fun _ _ h => h) hcatches) impl himpl method
      (by simp [hmethods]) herror
  · have hfree : List.Forall₂ (fun impl service => ServesOutside service.text →
        impl.endpoint.toOption.map (·.server) ≠ some receiver) definition.impls services := by
      refine hgenerated.forall₂ fun impl _ service himpl hnames hservice houtside => ?_
      rw [ImplDef.endpoint_of_service hservice]
      intro hself
      exact ((ImplDef.servesOutside_iff himpl hnames hservice).mp houtside).1
        (Option.some.inj hself)
    exact forall_mem_of_forall₂ (hfree.mp (fun _ _ h => h) hserves) impl himpl hserver

end Interpose
