import Interpose.Proofs.Definition.Continuation
import Interpose.Proofs.Service.Accepted
import Interpose.Proofs.Service.Spans
import Interpose.Proofs.Wrapper.Module

/-!
# Files put together

Two files whose blocks have different names make one file when one stands below the other. It stands
for the items of both, and when the file below imports nothing, its module is that of the file above
and then the classes of the blocks below. The classes of a block are written from the block alone.
-/

namespace Interpose

open Source

/-! ## Definitions -/

/-- Accepted blocks are accepted together when no name is in both lists. -/
theorem NamesAccepted.append {Body : Type} {impls others : List (ImplDef Body)}
    (h : NamesAccepted impls) (hothers : NamesAccepted others)
    (hnames : ∀ impl ∈ impls, ∀ other ∈ others, impl.name ≠ other.name) :
    NamesAccepted (impls ++ others) := by
  refine ⟨?_, List.forall_mem_append.mpr ⟨h.methods, hothers.methods⟩,
    List.forall_mem_append.mpr ⟨h.unreserved, hothers.unreserved⟩⟩
  rw [List.map_append, List.nodup_append]
  refine ⟨h.distinct, hothers.distinct, ?_⟩
  intro name hname other hother
  obtain ⟨impl, himpl, rfl⟩ := List.mem_map.mp hname
  obtain ⟨next, hnext, rfl⟩ := List.mem_map.mp hother
  exact hnames impl himpl next hnext

/-- Bodies are cleaned one by one. -/
theorem Definition.clean_append {first second : Definition Fenced}
    {cleaned other : Definition String} (h : first.clean = .ok cleaned)
    (hother : second.clean = .ok other) : (first ++ second).clean = .ok (cleaned ++ other) := by
  obtain ⟨impls, himpls, rfl⟩ := map_eq_ok_iff.mp h
  obtain ⟨more, hmore, rfl⟩ := map_eq_ok_iff.mp hother
  refine map_eq_ok_iff.mpr ⟨impls ++ more, ?_, rfl⟩
  exact mapM_eq_ok_iff.mpr (List.rel_append (mapM_eq_ok_iff.mp himpls) (mapM_eq_ok_iff.mp hmore))

/-- A definition is accepted further down too. -/
theorem Definition.namesAccepted_lower {definition : Definition String}
    (h : NamesAccepted definition.impls) (lines : Nat) :
    NamesAccepted (definition.lower lines).impls := by
  refine (namesAccepted_iff_of_names_eq ?_).mp h
  rw [lower, mapSpan, List.map_map]
  refine List.map_congr_left fun impl _ => ?_
  rw [Function.comp_apply, ImplDef.names, ImplDef.names, ImplDef.mapSpan, List.map_map]
  rfl

/-- What a text below another one stands for, when no block below has the name of one above. -/
theorem parse_below {above below : String} {first second : Definition String}
    (habove : parse above = .ok first) (hbelow : parse below = .ok second)
    (hnames : ∀ impl ∈ first.impls, ∀ other ∈ second.impls, impl.name ≠ other.name) :
    parse (above ++ "\n" ++ below) =
      .ok (first ++ second.lower (1 + above.toList.count '\n')) := by
  obtain ⟨read, hread, hclean, haccepted⟩ := parse_eq_ok_iff.mp habove
  obtain ⟨other, hother, hothers, hsecond⟩ := parse_eq_ok_iff.mp hbelow
  have htext : (above ++ "\n" ++ below).toList = above.toList ++ '\n' :: below.toList := by simp
  refine parse_eq_ok_iff.mpr ⟨_, htext ▸ readDefinition_below rfl hread hother, ?_, ?_⟩
  · exact Definition.clean_append hclean (Definition.clean_mapSpan hothers)
  · refine haccepted.append (Definition.namesAccepted_lower hsecond _) ?_
    intro impl himpl next hnext
    obtain ⟨block, hblock, rfl⟩ := List.mem_map.mp hnext
    exact hnames impl himpl block hblock

/-! ## Modules -/

/-- The text of a module before its classes. -/
def headText (support : String) (imports : List Import) : String :=
  textOfLines (copiedLines imports ++ supportLines support)

/-- The text of the classes that a block becomes, if it becomes a service. -/
def ImplDef.text (impl : ImplDef String) : String :=
  match impl.service with
  | .ok service => service.text
  | .error _ => ""

theorem ImplDef.text_of_service {impl : ImplDef String} {service : Service}
    (h : impl.service = .ok service) : impl.text = service.text := by
  unfold text
  rw [h]

/-- The classes of a block are the same wherever the block stands. -/
theorem ImplDef.text_mapSpan {impl : ImplDef String} {service : Service} (f : Span → Span)
    (h : impl.service = .ok service) : (impl.mapSpan f id).text = impl.text := by
  rw [text_of_service h, text_of_service (service_mapSpan f h), Service.text,
    Service.lines_mapSpan, ← Service.text]

/-- A text that stands for a definition becomes a module when each block of it becomes a service.
The module is its head and then the classes of each block, which are written from the block
alone. -/
theorem generate_iff_of_parse {text code : String} {definition : Definition String}
    (hparse : parse text = .ok definition) (support : String) : generate support text = .ok code ↔
      (∀ impl ∈ definition.impls, ∃ service, impl.service = .ok service) ∧
      code = headText support definition.imports ++
        String.join (definition.impls.map ImplDef.text) := by
  have htexts : ∀ services : List Service,
      List.Forall₂ (fun impl service => impl.service = .ok service) definition.impls services →
      definition.impls.map ImplDef.text = services.map Service.text := by
    intro services hbuilt
    have hsame := hbuilt.imp fun _ _ hservice => (ImplDef.text_of_service hservice).symm
    exact (map_eq_of_forall₂ hsame).symm
  rw [generate_eq_ok_iff]
  constructor
  · rintro ⟨other, services, hgenerated⟩
    obtain rfl := Except.ok.inj (hparse.symm.trans hgenerated.parsed)
    refine ⟨fun impl himpl => ?_, htexts services hgenerated.built ▸ hgenerated.written⟩
    obtain ⟨service, _, hservice⟩ := exists_mem_of_forall₂ hgenerated.built himpl
    exact ⟨service, hservice⟩
  · rintro ⟨hservices, hcode⟩
    obtain ⟨services, hbuilt⟩ := exists_mapM_eq_ok hservices
    have hforall := mapM_eq_ok_iff.mp hbuilt
    exact ⟨definition, services, hparse, hforall, htexts services hforall ▸ hcode⟩

/-- A text all of whose blocks are accepted becomes a module. -/
theorem generate_of_accepted {text : String} {definition : Definition String}
    (hparse : parse text = .ok definition) (h : definition.impls.all ImplDef.accepted = true)
    (support : String) : generate support text = .ok (headText support definition.imports ++
      String.join (definition.impls.map ImplDef.text)) :=
  (generate_iff_of_parse hparse support).mpr ⟨fun impl himpl =>
    ImplDef.exists_service_of_accepted (List.all_eq_true.mp h impl himpl), rfl⟩

/-- Files compose. A file below another one, with other names for its blocks, is accepted with it,
and stands there for what it stands for alone, further down. When it imports nothing, the module of
the two is that of the file above and then the classes of the blocks below, which are written from
each block alone. -/
theorem files_compose {above below : String} {first second : Definition String}
    (habove : parse above = .ok first) (hbelow : parse below = .ok second)
    (hnames : ∀ impl ∈ first.impls, ∀ other ∈ second.impls, impl.name ≠ other.name) :
    parse (above ++ "\n" ++ below) = .ok ⟨first.imports ++ second.imports,
        first.impls ++ (second.lower (1 + above.toList.count '\n')).impls⟩ ∧
      ∀ support code other, generate support above = .ok code →
        generate support below = .ok other → second.imports = [] →
        code = headText support first.imports ++ String.join (first.impls.map ImplDef.text) ∧
        other = headText support [] ++ String.join (second.impls.map ImplDef.text) ∧
        generate support (above ++ "\n" ++ below) =
          .ok (code ++ String.join (second.impls.map ImplDef.text)) := by
  have hparse := parse_below habove hbelow hnames
  refine ⟨hparse, fun support code other hcode hother himports => ?_⟩
  obtain ⟨hserved, rfl⟩ := (generate_iff_of_parse habove support).mp hcode
  obtain ⟨hbelowServed, rfl⟩ := (generate_iff_of_parse hbelow support).mp hother
  have hmoved : ∀ impl ∈ (second.lower (1 + above.toList.count '\n')).impls,
      ∃ service, impl.service = .ok service := by
    rw [Definition.lower, Definition.mapSpan, List.forall_mem_map]
    intro impl himpl
    obtain ⟨service, hservice⟩ := hbelowServed impl himpl
    exact ⟨_, ImplDef.service_mapSpan _ hservice⟩
  have htexts : (second.lower (1 + above.toList.count '\n')).impls.map ImplDef.text =
      second.impls.map ImplDef.text := by
    rw [Definition.lower, Definition.mapSpan, List.map_map]
    refine List.map_congr_left fun impl himpl => ?_
    obtain ⟨service, hservice⟩ := hbelowServed impl himpl
    exact ImplDef.text_mapSpan _ hservice
  have hnone : (second.lower (1 + above.toList.count '\n')).imports = [] := himports
  refine ⟨rfl, by rw [himports], (generate_iff_of_parse hparse support).mpr ⟨?_, ?_⟩⟩
  · exact List.forall_mem_append.mpr ⟨hserved, hmoved⟩
  · rw [Definition.append_eq, hnone, List.append_nil, List.map_append, htexts, String.join_append,
      String.append_assoc]

/-- A file that ends within a list of names to import, in a comment. -/
def openText : String :=
  "@middleware_service(Shop, serve) impl A \x7b \x7d\nfrom m import x #end"

/-- A file that begins with an annotation. -/
def noteText : String := "@middleware_service(Shop, serve)\nimpl B \x7b \x7d"

/-- The block that a service annotation makes, with the annotation at the front of a line. -/
def bareImpl (name : String) (line : Int) : ImplDef String where
  name := name
  bases := []
  methods := []
  annotations := [⟨ serviceAnnotation, some [⟨.path, "Shop", ⟨some line, some 21⟩⟩,
    ⟨.path, "serve", ⟨some line, some 27⟩⟩], ⟨some line, some 1⟩⟩]
  span := ⟨some line, some 1⟩

theorem files_compose_open :
    parse openText = .ok ⟨[⟨"from m import x"⟩], [bareImpl "A" 1]⟩ ∧
      parse noteText = .ok ⟨[], [bareImpl "B" 1]⟩ ∧
      parse (openText ++ "\n" ++ noteText) =
        .ok ⟨[⟨"from m import x"⟩], [bareImpl "A" 1, bareImpl "B" 3]⟩ ∧
      ∃ code, generate defaultSupport openText = .ok code ∧
        generate defaultSupport (openText ++ "\n" ++ noteText) =
          .ok (code ++ (bareImpl "B" 1).text) := by
  have habove : parse openText = .ok ⟨[⟨"from m import x"⟩], [bareImpl "A" 1]⟩ := by
    decide +kernel
  have hbelow : parse noteText = .ok ⟨[], [bareImpl "B" 1]⟩ := by decide +kernel
  have hnames : ∀ impl ∈ [bareImpl "A" 1], ∀ other ∈ [bareImpl "B" 1],
      impl.name ≠ other.name := by
    simp [bareImpl]
  have hcode := generate_of_accepted habove (by decide +kernel) defaultSupport
  have hother := generate_of_accepted hbelow (by decide +kernel) defaultSupport
  obtain ⟨hparse, hgenerate⟩ := files_compose habove hbelow hnames
  have hcount : openText.toList.count '\n' = 1 := by decide +kernel
  refine ⟨habove, hbelow, ?_, _, hcode, ?_⟩
  · rw [hparse, hcount]
    rfl
  · have hwhole := (hgenerate defaultSupport _ _ hcode hother rfl).2.2
    simpa using hwhole

end Interpose
