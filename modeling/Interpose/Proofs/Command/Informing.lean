import Interpose.Position
import Interpose.Proofs.Command.Generating
import Interpose.Proofs.Command.Summary
import Interpose.Proofs.Record.Decoding
import Interpose.Proofs.Wrapper.Module

/-!
# The command for information

The command prints JSON with one entry for each block of its file and, in it, one for each method.
The indices of a method lead to its middlewares in the registry that stands next to it. The record
in an entry is read as the service that its block becomes, so that the module of the file can be
written from what is printed.
-/

namespace Interpose

open Text

/-! ## Reading what is printed -/

/-- The item of a list at an index. -/
def Json.item? (list index : Json) : Option Json :=
  match list, index with
  | .arr items, .int index => (position? items.length index).bind fun position => items[position]?
  | _, _ => none

namespace Command

/-- The service whose record an entry holds. -/
def model? (entry : Json) : Option Service := do
  let record ← entry.field? "model"
  match RecordKind.service.decode record with
  | .ok (some (.service service)) => some service
  | _ => none

/-- The services whose records the entries hold, in the order of the entries. -/
def models? (json : Json) : Option (List Service) :=
  match json.field? "services" with
  | some (.obj entries) => entries.mapM fun entry => model? entry.2
  | _ => none

end Command

/-- The entry of a method, next to a registry. -/
structure MethodDef.EnteredAs (registry : Json) (method : MethodDef String)
    (entry : String × Json) : Prop where
  /-- Its key is the method's name. -/
  key : entry.1 = method.name
  /-- It shows the types of the signature. -/
  signature : ∃ signature, method.signature = .ok signature ∧
    entry.2.field? "request" = some (.str signature.request.canonical) ∧
    entry.2.field? "response" = some (.str signature.response.canonical) ∧
    entry.2.field? "error" = some (.str signature.error.canonical)
  /-- It shows the middlewares that the method declares. -/
  middlewares : entry.2.field? "middlewares" = some (.arr (method.middlewarePaths.map .str))
  /-- Its indices lead to them, one by one. -/
  indices : ∃ indices, entry.2.field? "indices" = some (.arr indices) ∧
    indices.mapM registry.item? = some (method.middlewarePaths.map .str)

/-- The entry of a block. -/
structure ImplDef.EnteredAs (impl : ImplDef String) (entry : String × Json) : Prop where
  /-- Its key is the block's name. -/
  key : entry.1 = impl.name
  /-- It shows the names around the block. -/
  names : ∃ endpoint, impl.endpoint = .ok endpoint ∧
    entry.2.field? "wrapper" = some (.str (wrapperName impl.name)) ∧
    entry.2.field? "interface" = some (.str endpoint.interface) ∧
    entry.2.field? "server" = some (.str endpoint.server)
  /-- It holds one entry for each method, in their order and under distinct keys. -/
  methods : ∃ registry members, entry.2.field? "registry" = some registry ∧
    entry.2.field? "methods" = some (.obj members) ∧ (members.map Prod.fst).Nodup ∧
    List.Forall₂ (MethodDef.EnteredAs registry) impl.methods members
  /-- Its record is read as the service that the block becomes. -/
  model : ∃ service, impl.service = .ok service ∧ Command.model? entry.2 = some service

/-! ## Entries -/

/-- An index of a path leads to it in the registry that is printed. -/
theorem item?_pathsJson {registry : Registry} {position : Nat} {path : String}
    (h : (registry.map (·.path))[position]? = some path) :
    (Command.pathsJson registry).item? (.int position) = some (.str path) := by
  rw [List.getElem?_map, Option.map_eq_some_iff] at h
  obtain ⟨ref, href, rfl⟩ := h
  obtain ⟨hlt, -⟩ := List.getElem?_eq_some_iff.mp href
  have hposition : position? registry.length position = some position := by
    rw [position?, if_pos (by omega), Int.toNat_natCast]
  simp [Json.item?, Command.pathsJson, hposition, href]

/-- The indices of a method in step lead to its middlewares. -/
theorem Rpc.InStep.mapM_item? {registry : Registry} {rpc : Rpc} (h : rpc.InStep registry) :
    (rpc.indices.map Json.int).mapM (Command.pathsJson registry).item? =
      some (rpc.paths.map Json.str) := by
  unfold InStep at h
  unfold paths
  generalize rpc.indices = indices at h
  generalize rpc.middlewares = refs at h
  induction h with
  | nil => rfl
  | cons hfirst _ ih =>
    obtain ⟨position, rfl, hpath⟩ := hfirst
    simp [item?_pathsJson hpath, ih]

/-- A method is entered as the one that it becomes. -/
theorem MethodDef.Becomes.enteredAs {registry : Registry} {method : MethodDef String} {rpc : Rpc}
    (h : method.Becomes registry rpc) :
    method.EnteredAs (Command.pathsJson registry) (rpc.name, Command.methodJson rpc) := by
  have hdeclares := h.declares
  have hpaths : method.middlewarePaths = rpc.paths := hdeclares.middlewares.symm
  refine ⟨hdeclares.name, ⟨_, h.signs, ?_⟩, ?_, rpc.indices.map Json.int, ?_, ?_⟩
  · simp [Command.methodJson, Json.field?_cons]
  · simp [Command.methodJson, Json.field?_cons, Command.pathsJson, hpaths, Rpc.paths]
  · simp [Command.methodJson, Json.field?_cons, Record.ofList]
  · rw [hpaths]
    exact h.inStep.mapM_item?

/-- The record in the entry of a service is read as the service. -/
theorem Command.model?_serviceJson (service : Service) :
    model? (serviceJson service) = some service := by
  have hmodel : (serviceJson service).field? "model" = some service.toRecord := by
    simp [serviceJson, Json.field?_cons]
  have hrecord : RecordKind.service.decode service.toRecord = .ok (some (.service service)) :=
    Element.decode_record (.service service)
  rw [model?, hmodel, Option.bind_eq_bind, Option.bind_some, hrecord]

/-- A block with distinct methods is entered as the service that it becomes. -/
theorem ImplDef.enteredAs_of_service {impl : ImplDef String} {service : Service}
    (h : impl.service = .ok service) (hnames : (impl.methods.map (·.name)).Nodup) :
    impl.EnteredAs (service.implementor, Command.serviceJson service) := by
  have hname := (service_eq_ok_iff.mp h).1
  refine ⟨hname, ⟨_, endpoint_of_service h, ?_⟩, ⟨Command.pathsJson service.registry,
    service.methods.map fun rpc => (rpc.name, Command.methodJson rpc), ?_, ?_, ?_, ?_⟩,
    ⟨service, h, Command.model?_serviceJson service⟩⟩
  · simp [Command.serviceJson, Json.field?_cons, hname]
  · simp [Command.serviceJson, Json.field?_cons]
  · simp [Command.serviceJson, Json.field?_cons]
  · rw [List.map_map]
    exact (names_of_service h).symm ▸ hnames
  · rw [List.forall₂_map_right_iff]
    exact (becomes_of_service h).imp fun _ _ hmethod => hmethod.enteredAs

namespace Command

/-- What the JSON of a summary says about the blocks of a definition, and the services that are read
off it. -/
structure Summarizes (definition : Definition String) (json : Json) (models : List Service) :
    Prop where
  /-- There is one entry for each block, in their order and under distinct keys. -/
  entries : ∃ entries, json = .obj [("services", .obj entries)] ∧ (entries.map Prod.fst).Nodup ∧
    List.Forall₂ ImplDef.EnteredAs definition.impls entries
  /-- The records are read as the services. -/
  read : models? json = some models
  /-- They are what the blocks become. -/
  built : List.Forall₂ (fun impl model => impl.service = .ok model) definition.impls models

/-- The summary of a definition's services says what its blocks say. -/
theorem summarizes_of_services {definition : Definition String} {services : List Service}
    (hnames : NamesAccepted definition.impls)
    (h : List.Forall₂ (fun impl service => impl.service = .ok service) definition.impls services) :
    Summarizes definition (summaryJson services) services := by
  refine ⟨⟨_, rfl, ?_, ?_⟩, ?_, h⟩
  · have hkeys : services.map (·.implementor) = definition.impls.map (·.name) :=
      map_eq_of_forall₂ (h.imp fun _ _ hservice => (ImplDef.service_eq_ok_iff.mp hservice).1)
    rw [List.map_map]
    exact hkeys.symm ▸ hnames.distinct
  · rw [List.forall₂_map_right_iff]
    exact forall₂_of_mem h fun impl himpl service hservice =>
      ImplDef.enteredAs_of_service hservice (hnames.methods impl himpl)
  · have hentries : (summaryJson services).field? "services" = some (.obj (services.map
        fun service => (service.implementor, serviceJson service))) := by
      simp [summaryJson, Json.field?_cons]
    have hread : (fun entry : String × Json => model? entry.2) ∘
        (fun service : Service => (service.implementor, serviceJson service)) = pure :=
      funext model?_serviceJson
    rw [models?, hentries]
    simpa [hread] using List.mapM_pure (m := Option) (f := id) (l := services)

/-! ## Runs -/

/-- A text on a line of its own is read as the value that it stands for. -/
theorem parse?_textOfLines (style : Json.Style) (value : Json) :
    Json.parse? (textOfLines [value.render style]) = some value := by
  have hline : textOfLines [value.render style] = value.render style ++ String.ofList ['\n'] := by
    rw [← String.toList_inj]
    simp [textOfLines, String.join]
  rw [hline]
  exact Json.parse?_render_append style (Json.unpaired_of_strings value)
    (by simp [Json.Gap, Json.Reader.isGap])

section

variable {tree : Tree} {path : String} {file : ServiceFile} {octets : List UInt8}
  (hread : tree.read path = .ok octets) (hload : loadFile path octets = .ok file)
include hread hload

/-- The JSON of an accepted file is printed, and nothing is changed. -/
theorem Runs.run_info {arguments : List String} {invocation : Invocation}
    (h : Command.info.Runs arguments invocation)
    (hinput : invocation.value? inputOption = some path) (hjson : invocation.has jsonOption = true)
    (columns : Nat) : Command.run Tree.disk columns (Command.info.name :: arguments) tree =
      (.success (textOfLines [(summaryJson file.services).render .indented]), tree) := by
  rw [h.run, act, runInfo, hinput, Option.getD_some, withFile_of_accepted hread hload, if_pos hjson]
  rfl

/-- The module of an accepted file is written where the output can be opened. -/
theorem Runs.run_gen {arguments : List String} {invocation : Invocation} {output : String}
    {names : Tree.Names} (h : Command.gen.Runs arguments invocation)
    (hinput : invocation.value? inputOption = some path)
    (houtput : invocation.value? outputOption = some output) (hopens : tree.Opens output names)
    (columns : Nat) : Command.run Tree.disk columns (Command.gen.name :: arguments) tree =
      (.success "", tree.put names (encodeOctets
        (file.moduleText ((invocation.value? supportOption).getD defaultSupport)))) := by
  rw [h.run, act]
  exact runGen_of_file hinput houtput hread hload (hopens.write_points _)

end

/-- Every run of the command for modules on a file, with any support package and an output that can
be opened, writes the module with some imports and services. -/
def AlwaysWrites (tree : Tree) (path : String) (imports : List Import) (services : List Service) :
    Prop :=
  ∀ (columns : Nat) (arguments : List String) (invocation : Invocation) (output : String)
    (names : Tree.Names), Command.gen.Runs arguments invocation →
    invocation.value? inputOption = some path → invocation.value? outputOption = some output →
    tree.Opens output names →
    Command.run Tree.disk columns (Command.gen.name :: arguments) tree =
      (.success "", tree.put names (encodeOctets
        (moduleText ((invocation.value? supportOption).getD defaultSupport) imports services)))

/-- Whatever text has a module, the JSON that is printed for a file with this text summarizes its
definition, and the services that are read off the JSON are those of the module: it is written from
them and from the imports of the definition. -/
theorem info_tells_module {tree : Tree} {path text support code : String}
    (hread : tree.read path = .ok (encodeOctets text))
    (haccepted : generate support (String.ofList (unifyNewlines text.toList)) = .ok code)
    {arguments : List String} {invocation : Invocation}
    (hruns : Command.info.Runs arguments invocation)
    (hinput : invocation.value? inputOption = some path) (hjson : invocation.has jsonOption = true)
    (columns : Nat) :
    ∃ definition output json models,
      parse (String.ofList (unifyNewlines text.toList)) = .ok definition ∧
      Command.run Tree.disk columns (Command.info.name :: arguments) tree =
        (.success output, tree) ∧
      Json.parse? output = some json ∧ Summarizes definition json models ∧
      code = moduleText support definition.imports models ∧
      AlwaysWrites tree path definition.imports models := by
  obtain ⟨file, hfile, rfl⟩ := map_eq_ok_iff.mp haccepted
  have hload : loadFile path (encodeOctets text) = .ok file :=
    loadFile_eq_ok_iff.mpr ⟨text, rfl, hfile⟩
  obtain ⟨definition, hparse, hfile⟩ := bind_eq_ok_iff.mp hfile
  obtain ⟨services, hservices, hfile⟩ := bind_eq_ok_iff.mp hfile
  obtain rfl := Except.ok.inj hfile
  refine ⟨definition, _, summaryJson services, services, hparse,
    hruns.run_info hread hload hinput hjson columns, parse?_textOfLines _ _, ?_, rfl, ?_⟩
  · exact summarizes_of_services (wellFormed_of_parse hparse).names (mapM_eq_ok_iff.mp hservices)
  · intro columns arguments invocation output names hgen hinput houtput hopens
    exact hgen.run_gen hread hload hinput houtput hopens columns

/-- A text with a method that has one middleware. -/
def shopText : String := String.ofList
  ("@middleware_service(Shop, serve) impl Store \x7b @middleware(a.Log) rpc buy".toList ++
    "(self, env, r: In) -> Result[Out, Bad] \x60\x60\x60pass\x60\x60\x60 \x7d".toList)

/-- A tree with a file that holds the text. -/
def shopTree : Tree := .ofFiles [(["in"], encodeOctets shopText)]

theorem read_shop : shopTree.read "in" = .ok (encodeOctets shopText) := by decide +kernel

theorem parse_shop : (parse shopText).map (fun definition => (definition.services.isOk,
    definition.imports, definition.impls.map (·.name))) = .ok (true, [], ["Store"]) := by
  have htext : shopText.toList = _ := String.toList_ofList
  rw [parse, htext]
  decide +kernel

theorem unifyNewlines_shop : String.ofList (unifyNewlines shopText.toList) = shopText := by
  have htext : shopText.toList = _ := String.toList_ofList
  rw [unifyNewlines_eq_self (htext ▸ by decide), String.ofList_toList]

theorem opens_shop : shopTree.Opens "out" (Tree.home ++ ["out"]) :=
  ⟨by decide +kernel, .inl (by decide +kernel)⟩

theorem runs_info_shop : Command.info.Runs ["--json", "-iin"]
    ⟨[⟨jsonOption, none⟩, ⟨inputOption, some "in"⟩], []⟩ :=
  ⟨by decide +kernel, rfl, rfl⟩

theorem runs_gen_shop : Command.gen.Runs ["-iin", "-oout"]
    ⟨[⟨inputOption, some "in"⟩, ⟨outputOption, some "out"⟩], []⟩ :=
  ⟨by decide +kernel, rfl, rfl⟩

/-- What is printed for the file holds the service of its module. -/
theorem info_tells_module_shop :
    ∃ output json models, Command.run Tree.disk 80 ["info", "--json", "-iin"] shopTree =
        (.success output, shopTree) ∧
      Json.parse? output = some json ∧ models? json = some models ∧
      models.map (·.implementor) = ["Store"] ∧
      Command.run Tree.disk 80 ["gen", "-iin", "-oout"] shopTree =
        (.success "", shopTree.put (Tree.home ++ ["out"])
          (encodeOctets (moduleText defaultSupport [] models))) := by
  obtain ⟨code, hcode, -⟩ := @exists_generate_eq_ok defaultSupport _ _ _ _ parse_shop
  rw [← unifyNewlines_shop] at hcode
  obtain ⟨definition, output, json, models, hdefinition, hrun, hjson, hsummarizes, -, hwrites⟩ :=
    info_tells_module read_shop hcode runs_info_shop rfl rfl 80
  have hparse := parse_shop
  rw [← unifyNewlines_shop, hdefinition] at hparse
  have hfound := Except.ok.inj hparse
  simp only [Prod.mk.injEq] at hfound
  obtain ⟨-, himports, hnames⟩ := hfound
  have hmodels : models.map (·.implementor) = definition.impls.map (·.name) :=
    map_eq_of_forall₂ (hsummarizes.built.imp fun _ _ hservice =>
      (ImplDef.service_eq_ok_iff.mp hservice).1)
  have hsupport : (Invocation.value? ⟨[⟨inputOption, some "in"⟩, ⟨outputOption, some "out"⟩], []⟩
      supportOption).getD defaultSupport = defaultSupport := rfl
  have hgen := hwrites 80 _ _ "out" _ runs_gen_shop rfl rfl opens_shop
  rw [hsupport, himports] at hgen
  exact ⟨output, json, models, hrun, hjson, hsummarizes.read, hmodels.trans hnames, hgen⟩

end Command

end Interpose
