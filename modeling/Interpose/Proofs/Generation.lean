import Interpose.Generate
import Interpose.Proofs.Definition.Reserved
import Interpose.Proofs.Grammar.Parsing
import Interpose.Proofs.Service.Accepted

/-!
# Accepted files

When a definition file becomes a module, and which fault is reported when it does not. A text that
is no definition file is refused first. What is read of any other text is checked in order: all
bodies, all names, then block by block.
-/

namespace Interpose

open Source Text

/-! ## Checks of a file -/

/-- A body with text beside its opening fence and on a later line. -/
def Fenced.BesideFence (body : Fenced) : Prop :=
  ∃ first rest, splitLines body.text.toList = first :: rest ∧ isBlankLine first = false ∧
    ∃ line ∈ rest, isBlankLine line = false

/-- The checks of a file: its bodies, its names, and its blocks one after the other. -/
def Definition.checks (read : Definition Fenced) : List Check :=
  [⟨.form, ∀ impl ∈ read.impls, ∀ method ∈ impl.methods, ¬ method.body.BesideFence⟩,
    ⟨.consistency, NamesFree read.impls⟩] ++ read.impls.flatMap ImplDef.checks

/-! ## Bodies -/

theorem Fenced.besideFence_iff (body : Fenced) :
    textOnFence (splitLines body.text.toList) = true ↔ body.BesideFence := by
  unfold Fenced.BesideFence
  cases splitLines body.text.toList with
  | nil => simp [textOnFence]
  | cons first rest => simp [textOnFence]

theorem Fenced.decides_clean (body : Fenced) :
    Decides [⟨.form, ¬ body.BesideFence⟩] body.clean := by
  rw [← besideFence_iff]
  by_cases hfence : textOnFence (splitLines body.text.toList) = true
  · have hfault : body.clean = .error (.textOnFence body.span
        (String.ofList (trim ((splitLines body.text.toList).headD [])))) := if_pos hfence
    rw [hfault]
    exact .of_iff (by simp [hfence]) fun _ h => Except.error.inj h ▸ rfl
  · have hclean : body.clean =
        .ok (String.ofList (joinLines (keptLines (splitLines body.text.toList)))) := if_neg hfence
    rw [hclean]
    exact .of_iff (by simp [hfence]) fun _ h => nomatch h

theorem ImplDef.decides_clean (impl : ImplDef Fenced) :
    Decides [⟨.form, ∀ method ∈ impl.methods, ¬ method.body.BesideFence⟩] impl.clean :=
  (Decides.forall_mem fun method _ => method.body.decides_clean.map _).map _

theorem Definition.decides_clean (read : Definition Fenced) : Decides
    [⟨.form, ∀ impl ∈ read.impls, ∀ method ∈ impl.methods, ¬ method.body.BesideFence⟩]
    read.clean :=
  (Decides.forall_mem fun impl _ => impl.decides_clean).map _

/-- Cleaning changes bodies only, so the names and the checks of the blocks stay the same. -/
theorem ImplDef.eq_of_clean {impl : ImplDef Fenced} {cleaned : ImplDef String}
    (h : impl.clean = .ok cleaned) :
    cleaned.names = impl.names ∧ cleaned.checks = impl.checks := by
  obtain ⟨methods, hmethods, rfl⟩ := map_eq_ok_iff.mp h
  have hsame : ∀ (method : MethodDef Fenced) (cleaned : MethodDef String),
      method.clean = .ok cleaned → cleaned.name = method.name ∧ cleaned.checks = method.checks := by
    intro method cleaned hclean
    obtain ⟨body, _, rfl⟩ := map_eq_ok_iff.mp hclean
    exact ⟨rfl, rfl⟩
  have hnames := map_eq_of_mapM (fun method cleaned h => (hsame method cleaned h).1) hmethods
  have hchecks := flatMap_eq_of_mapM (fun method cleaned h => (hsame method cleaned h).2) hmethods
  exact ⟨congrArg (Prod.mk impl.name) hnames, congrArg (List.cons _) hchecks⟩

theorem Definition.eq_of_clean {read : Definition Fenced} {cleaned : Definition String}
    (h : read.clean = .ok cleaned) :
    cleaned.impls.map ImplDef.names = read.impls.map ImplDef.names ∧
      cleaned.impls.flatMap ImplDef.checks = read.impls.flatMap ImplDef.checks := by
  obtain ⟨impls, himpls, rfl⟩ := map_eq_ok_iff.mp h
  exact ⟨map_eq_of_mapM (fun _ _ h => (ImplDef.eq_of_clean h).1) himpls,
    flatMap_eq_of_mapM (fun _ _ h => (ImplDef.eq_of_clean h).2) himpls⟩

/-! ## Phases -/

/-- The names of what is read are checked once its bodies are cleaned. -/
theorem decides_checkNames {read : Definition Fenced} {cleaned : Definition String}
    {text : List Char} (hread : readDefinition text = .ok read) (h : read.clean = .ok cleaned) :
    Decides [⟨.consistency, NamesFree read.impls⟩] (checkNames cleaned.impls) := by
  refine .of_iff ?_ fun fault hfault => kind_of_checkImpls hfault
  have hnames : ∀ impl ∈ read.impls, ∀ method ∈ impl.methods, isName method.name.toList :=
    fun impl himpl method hmethod =>
      (((sound_of_readDefinition hread).2 impl himpl).methods method hmethod).name
  rw [← namesAccepted_iff_namesFree hnames,
    ← namesAccepted_iff_of_names_eq (Definition.eq_of_clean h).1, ← checkNames_eq_ok_iff]
  exact ⟨fun ⟨_, hok⟩ => hok, fun hok => ⟨(), hok⟩⟩

/-- A file that is read is decided by its checks. -/
theorem decides_generate {text : String} {read : Definition Fenced}
    (hread : readDefinition text.toList = .ok read) (support : String) :
    Decides read.checks (generate support text) := by
  have hparse : parse text = read.clean >>= fun definition =>
      (checkNames definition.impls).map fun _ => definition := by
    unfold parse
    rw [hread]
    rfl
  have hdecides : Decides _ (parse text) := hparse ▸
    read.decides_clean.bind fun definition hclean => (decides_checkNames hread hclean).map _
  refine Decides.map _ (hdecides.bind fun definition hdefinition => ?_)
  obtain ⟨again, hagain, hclean, _⟩ := parse_eq_ok_iff.mp hdefinition
  obtain rfl := Except.ok.inj (hread.symm.trans hagain)
  rw [← (Definition.eq_of_clean hclean).2]
  exact definition.decides_services.map _

/-- A text that is not read is refused as no definition file. -/
theorem kind_of_not_grammatical {text : String} (h : ¬ Grammatical text.toList)
    (support : String) :
    ∃ fault, generate support text = .error fault ∧ fault.kind = .form := by
  cases hread : readDefinition text.toList with
  | ok read => exact absurd (exists_readDefinition_iff.mp ⟨read, hread⟩) h
  | error fault =>
    obtain ⟨span, context, rfl⟩ := readDefinition_eq_error hread
    refine ⟨.malformed span context, ?_, rfl⟩
    unfold generate ServiceFile.ofText parse
    rw [hread]
    rfl

/-! ## Acceptance -/

/-- The checks of a file are about its form, its names, its service annotations, its signatures and
its middlewares. -/
theorem Definition.kind_ne_registry {read : Definition Fenced} {check : Check}
    (h : check ∈ read.checks) : check.kind ≠ .registry := by
  rcases List.mem_append.mp h with hfile | hblocks
  · rcases List.mem_pair.mp hfile with rfl | rfl
    · simp
    · simp
  · obtain ⟨impl, _, himpl⟩ := List.mem_flatMap.mp hblocks
    rcases List.mem_cons.mp himpl with rfl | hmethods
    · simp
    · obtain ⟨method, _, hmethod⟩ := List.mem_flatMap.mp hmethods
      rcases List.mem_pair.mp hmethod with rfl | rfl
      · simp
      · simp

/-- A text becomes a module exactly when it is a definition file all of whose checks hold. Otherwise
the fault is about its form when it is no definition file, and it reports the first check that does
not hold when it is one; it is never about the registry. -/
theorem generate_accepts (support text : String) :
    ((∃ code, generate support text = .ok code) ↔ Grammatical text.toList ∧
      ∀ read, readDefinition text.toList = .ok read → ∀ check ∈ read.checks, check.holds) ∧
    ∀ fault, generate support text = .error fault → fault.kind ≠ .registry ∧
      ((¬ Grammatical text.toList ∧ fault.kind = .form) ∨
        ∃ read, readDefinition text.toList = .ok read ∧ Reports fault read.checks) := by
  by_cases hform : Grammatical text.toList
  · obtain ⟨read, hread⟩ := exists_readDefinition_iff.mpr hform
    have hdecides := decides_generate hread support
    refine ⟨?_, fun fault hfault => ?_⟩
    · rw [hdecides.exists_ok_iff]
      constructor
      · intro hchecks
        refine ⟨hform, fun again hagain => ?_⟩
        obtain rfl := Except.ok.inj (hread.symm.trans hagain)
        exact hchecks
      · exact fun h => h.2 read hread
    · have hreports := hdecides.reports fault hfault
      obtain ⟨check, hmem, _, hkind⟩ := hreports.exists_not_holds
      exact ⟨hkind ▸ Definition.kind_ne_registry hmem, .inr ⟨read, hread, hreports⟩⟩
  · obtain ⟨fault, hfault, hkind⟩ := kind_of_not_grammatical hform support
    refine ⟨⟨?_, fun h => absurd h.1 hform⟩, ?_⟩
    · rintro ⟨code, hcode⟩
      simp [hfault] at hcode
    · intro other hother
      obtain rfl := Except.error.inj (hfault.symm.trans hother)
      exact ⟨by simp [hkind], .inl ⟨hform, hkind⟩⟩

/-- A method with a reserved name and without a signature, in a block without a service
annotation. -/
def crossedText : String := "impl A \x7brpc md_0() \x60\x60\x60x\x60\x60\x60\x7d"

theorem generate_crossed :
    generate "hookwire_runtime" crossedText =
        .error (.reservedMethod ⟨some 1, some 13⟩ "md_0") ∧
      Grammatical crossedText.toList ∧
      ∃ read, readDefinition crossedText.toList = .ok read ∧
        Reports (.reservedMethod ⟨some 1, some 13⟩ "md_0") read.checks := by
  have hfault : generate "hookwire_runtime" crossedText =
      .error (.reservedMethod ⟨some 1, some 13⟩ "md_0") := by decide +kernel
  rcases ((generate_accepts "hookwire_runtime" crossedText).2 _ hfault).2 with ⟨_, hkind⟩ | hread
  · cases hkind
  · obtain ⟨read, hread, hreports⟩ := hread
    exact ⟨hfault, exists_readDefinition_iff.mp ⟨read, hread⟩, read, hread, hreports⟩

end Interpose
