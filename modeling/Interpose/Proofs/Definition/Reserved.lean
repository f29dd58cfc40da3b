import Interpose.Proofs.Definition.Names
import Interpose.Proofs.Source.Terminals

/-!
# Reserved names

Which identifiers a wrapper needs for itself, in terms of their letters. Names that are accepted are
distinct where they have to be, and no method has one of these.
-/

namespace Interpose

open Source Text

/-- A name that begins with two underscores, that is the name under which a wrapper keeps the
implementation, or that is the one of a middleware field. -/
def Reserved (name : String) : Prop :=
  ['_', '_'] <+: name.toList ∨ name = implementationField ∨
    ∃ digits, digits ≠ [] ∧ (∀ c ∈ digits, c.isDigit = true) ∧ name.toList = fieldFront ++ digits

theorem isNameRest_of_isNameStart {c : Char} (h : isNameStart c = true) : isNameRest c = true := by
  simp only [isNameStart, Bool.or_eq_true] at h
  simp only [isNameRest, Char.isAlphanum, Bool.or_eq_true]
  exact h.imp_left .inl

/-- All characters of a name are ones that a name can go on with. -/
theorem isNameRest_of_isName {cs : List Char} (h : isName cs) {c : Char} (hmem : c ∈ cs) :
    isNameRest c = true := by
  cases cs with
  | nil => simp at hmem
  | cons first cs =>
    obtain ⟨hfirst, hcs⟩ : isNameStart first = true ∧ cs.all isNameRest = true := by
      simpa [isName] using h
    rcases List.mem_cons.mp hmem with rfl | hmem
    · exact isNameRest_of_isNameStart hfirst
    · exact List.all_eq_true.mp hcs c hmem

/-- Names are written in ASCII. -/
theorem toNat_lt_of_isNameRest {c : Char} (h : isNameRest c = true) : c.toNat < 128 := by
  delta isNameRest Char.isAlphanum Char.isAlpha Char.isUpper Char.isLower Char.isDigit at h
  simp only [Bool.or_eq_true, Bool.and_eq_true, decide_eq_true_eq, UInt32.le_iff_toNat_le] at h
  have hc : c.toNat = c.val.toNat := rfl
  have hupper : 'Z'.val.toNat = 90 := rfl
  have hlower : 'z'.val.toNat = 122 := rfl
  have hdigit : '9'.val.toNat = 57 := rfl
  rcases h with h | rfl
  · omega
  · decide

/-- The decimal digits of names are the ASCII digits. -/
theorem isDecimalDigit_iff_isDigit {c : Char} (h : isNameRest c = true) :
    isDecimalDigit c = true ↔ c.isDigit = true := by
  refine ⟨fun hdecimal => ?_, isDecimalDigit_of_isDigit⟩
  have hranges : ∀ range ∈ decimalDigits, range = (0x30, 0x39) ∨ 128 ≤ range.1 := by decide
  obtain ⟨range, hmem, hlow, hhigh⟩ := (Ranges.contains_iff _ _).mp hdecimal
  rcases hranges range hmem with rfl | hbeyond
  · simp only [Char.isDigit, Bool.and_eq_true, decide_eq_true_eq]
    exact ⟨hlow, hhigh⟩
  · have hascii := toNat_lt_of_isNameRest h
    omega

/-- What follows the front of a middleware field is digits. -/
private theorem isField_iff {cs : List Char} (h : ∀ c ∈ cs, isNameRest c = true) :
    (cs.take 3 = fieldFront ∧ cs.drop 3 ≠ []) ∧ (∀ c ∈ cs.drop 3, isDecimalDigit c = true) ↔
      ∃ digits, digits ≠ [] ∧ (∀ c ∈ digits, c.isDigit = true) ∧ cs = fieldFront ++ digits := by
  constructor
  · rintro ⟨⟨htake, hne⟩, hdigits⟩
    refine ⟨cs.drop 3, hne, fun c hmem => ?_, ?_⟩
    · exact (isDecimalDigit_iff_isDigit (h c (List.mem_of_mem_drop hmem))).mp (hdigits c hmem)
    · rw [← htake, List.take_append_drop]
  · rintro ⟨digits, hne, hdigits, rfl⟩
    exact ⟨⟨rfl, hne⟩, fun c hmem => isDecimalDigit_of_isDigit (hdigits c hmem)⟩

/-- The check for reserved names on identifiers. -/
theorem isReserved_eq_true_iff {name : String} (h : isName name.toList) :
    isReserved name = true ↔ Reserved name := by
  have hletters : ∀ c ∈ name.toList, isNameRest c = true := fun c => isNameRest_of_isName h
  have hnewline : '\n' ∉ name.toList.drop 2 := fun hmem =>
    absurd (hletters '\n' (List.mem_of_mem_drop hmem)) (by decide)
  have hfront : (name.toList.take 2 = ['_', '_'] ∧ '\n' ∉ name.toList.drop 2) ↔
      ['_', '_'] <+: name.toList := by
    rw [List.prefix_iff_eq_take]
    exact ⟨fun hfront => hfront.1.symm, fun hfront => ⟨hfront.symm, hnewline⟩⟩
  unfold isReserved Reserved
  rw [← isField_iff hletters, ← hfront]
  simp [List.all_eq_true, or_assoc]

/-- Blocks whose names are distinct, and whose methods have distinct names that are free. -/
structure NamesFree {Body : Type} (impls : List (ImplDef Body)) : Prop where
  /-- The blocks have distinct names. -/
  distinct : (impls.map (·.name)).Nodup
  /-- So have the methods of each block. -/
  methods : ∀ impl ∈ impls, (impl.methods.map (·.name)).Nodup
  /-- No method has a reserved name. -/
  unreserved : ∀ impl ∈ impls, ∀ method ∈ impl.methods, ¬ Reserved method.name

/-- The names of blocks whose methods are named by identifiers are accepted when they are free. -/
theorem namesAccepted_iff_namesFree {Body : Type} {impls : List (ImplDef Body)}
    (h : ∀ impl ∈ impls, ∀ method ∈ impl.methods, isName method.name.toList) :
    NamesAccepted impls ↔ NamesFree impls := by
  have hreserved : ∀ impl ∈ impls, ∀ method ∈ impl.methods,
      isReserved method.name = false ↔ ¬ Reserved method.name := by
    intro impl himpl method hmethod
    rw [← isReserved_eq_true_iff (h impl himpl method hmethod), Bool.not_eq_true]
  constructor
  · rintro ⟨hdistinct, hmethods, hfree⟩
    exact ⟨hdistinct, hmethods, fun impl himpl method hmethod =>
      (hreserved impl himpl method hmethod).mp (hfree impl himpl method hmethod)⟩
  · rintro ⟨hdistinct, hmethods, hfree⟩
    exact ⟨hdistinct, hmethods, fun impl himpl method hmethod =>
      (hreserved impl himpl method hmethod).mpr (hfree impl himpl method hmethod)⟩

end Interpose
