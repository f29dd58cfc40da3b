import Interpose.Proofs.Command.Summary
import Interpose.Proofs.Definition.Canonical

/-!
# What accepted methods show

The names, the paths and the types of an accepted method are written with letters, digits and marks
that take one cell each. So are its hooks, whose indices are written with digits. All of them are
shown in a line where the table of methods fits into the console.
-/

namespace Interpose

open Command Source Text

/-! ## Printed texts -/

/-- The code points of what a name goes on with. -/
theorem toNat_of_isNameRest {c : Char} (h : isNameRest c = true) :
    (65 ≤ c.toNat ∧ c.toNat ≤ 90 ∨ 97 ≤ c.toNat ∧ c.toNat ≤ 122) ∨
      48 ≤ c.toNat ∧ c.toNat ≤ 57 ∨ c.toNat = 95 := by
  delta isNameRest Char.isAlphanum Char.isAlpha Char.isUpper Char.isLower Char.isDigit at h
  simpa [UInt32.le_iff_toNat_le, Char.ext_iff, ← UInt32.toNat_inj, or_assoc] using h

/-- What a name goes on with is printed. -/
theorem printed_of_isNameRest {c : Char} (h : isNameRest c = true) : ' ' ≤ c ∧ c ≤ '~' := by
  have hpoints := toNat_of_isNameRest h
  rw [Char.le_def, Char.le_def, UInt32.le_iff_toNat_le, UInt32.le_iff_toNat_le]
  change 32 ≤ c.toNat ∧ c.toNat ≤ 126
  omega

/-- It is no blank. -/
theorem isBlank_eq_false_of_isNameRest {c : Char} (h : isNameRest c = true) :
    isBlank c = false := by
  have hpoints := toNat_of_isNameRest h
  have hranges : ∀ range ∈ Text.blanks, range.2 ≤ 32 ∨ 126 < range.1 := by decide
  rw [isBlank, ← Bool.not_eq_true, Ranges.contains_iff]
  rintro ⟨range, hrange, hc⟩
  have hrange := hranges range hrange
  omega

/-- A name is printed. -/
theorem printed_of_isName {cs : List Char} (h : isName cs) : Printed cs :=
  fun _ hc => printed_of_isNameRest (isNameRest_of_isName h hc)

/-- A dotted name is printed. -/
theorem IsDotted.printed {path : String} (h : IsDotted path) : Printed path.toList := by
  intro c hc
  rcases h.isNameRest_or_dot c hc with hrest | rfl
  · exact printed_of_isNameRest hrest
  · decide

/-- The digits of an index and the sign in front of them are printed. -/
theorem printed_toString (index : Int) : Printed (toString index).toList := by
  have hdigits (n : Nat) : Printed (toString n).toList := by
    intro c hc
    refine printed_of_isNameRest ?_
    simp [isNameRest, Char.isAlphanum, isDigit_of_mem_toString hc]
  cases index with
  | ofNat n => exact hdigits n
  | negSucc n =>
    have hsign : Printed "-".toList := by decide
    have htext : toString (Int.negSucc n) = "-" ++ toString (n + 1) := rfl
    rw [htext, String.toList_append]
    exact printed_append.mpr ⟨hsign, hdigits (n + 1)⟩

/-- Printed texts are joined to a printed text. -/
theorem printed_intercalate {separator : String} (hseparator : Printed separator.toList)
    {texts : List String} (h : ∀ text ∈ texts, Printed text.toList) :
    Printed (separator.intercalate texts).toList := by
  induction texts with
  | nil => simp [Printed]
  | cons first texts ih =>
    obtain ⟨hfirst, hrest⟩ := List.forall_mem_cons.mp h
    cases texts with
    | nil => simpa using hfirst
    | cons next texts =>
      rw [String.intercalate_cons_cons, String.toList_append, String.toList_append]
      exact printed_append.mpr ⟨printed_append.mpr ⟨hfirst, hseparator⟩, ih hrest⟩

/-- Joined texts are not empty when the first one is not. -/
theorem intercalate_ne_empty {separator first : String} (h : first ≠ "") {texts : List String} :
    separator.intercalate (first :: texts) ≠ "" := by
  cases texts with
  | nil => simpa using h
  | cons next texts =>
    rw [String.intercalate_cons_cons]
    intro htext
    have hlist := congrArg String.toList htext
    simp [h] at hlist

namespace TypeExpr

/-- The arguments of a type after the first one are printed when each of them is. -/
theorem printed_canonicalRest {args : List TypeExpr}
    (h : ∀ arg ∈ args, Printed arg.canonical.toList) : Printed (canonicalRest args).toList := by
  induction args with
  | nil => simp [canonicalRest, Printed]
  | cons arg args ih =>
    obtain ⟨harg, hrest⟩ := List.forall_mem_cons.mp h
    have hcomma : Printed ", ".toList := by decide
    rw [canonicalRest, String.toList_append, String.toList_append]
    exact printed_append.mpr ⟨printed_append.mpr ⟨hcomma, harg⟩, ih hrest⟩

/-- A type with dotted names is printed. -/
theorem WellNamed.printed {type : TypeExpr} (h : type.WellNamed) :
    Printed type.canonical.toList := by
  induction h with
  | @mk name args span hname _ ih =>
    cases args with
    | nil => exact hname.printed
    | cons arg args =>
      obtain ⟨harg, hrest⟩ := List.forall_mem_cons.mp ih
      have hopen : Printed "[".toList := by decide
      have hclose : Printed "]".toList := by decide
      simp only [canonical, String.toList_append, printed_append]
      exact ⟨⟨⟨⟨hname.printed, hopen⟩, harg⟩, printed_canonicalRest hrest⟩, hclose⟩

/-- A type is never shown as nothing. -/
theorem Unmarked.canonical_ne_empty {type : TypeExpr} (h : type.Unmarked) :
    type.canonical ≠ "" := by
  cases h with
  | @mk name args span hname _ =>
    intro htext
    have hlist := congrArg String.toList htext
    rw [toList_canonical] at hlist
    exact hname.ne_nil (List.append_eq_nil_iff.mp hlist).1

end TypeExpr

/-! ## Methods -/

/-- The hooks of a method are printed when its paths are dotted. -/
theorem printed_hooksText {rpc : Rpc} (h : ∀ ref ∈ rpc.middlewares, IsDotted ref.path) :
    Printed (hooksText rpc).toList := by
  unfold hooksText
  split
  · decide
  · refine printed_intercalate (by decide) fun text htext => ?_
    obtain ⟨⟨ref, index⟩, hmem, rfl⟩ := List.mem_map.mp htext
    have hopen : Printed " (".toList := by decide
    have hclose : Printed ")".toList := by decide
    have href : ref ∈ rpc.middlewares := (List.of_mem_zip hmem).1
    simp only [String.toList_append, printed_append]
    exact ⟨⟨⟨(h ref href).printed, hopen⟩, printed_toString index⟩, hclose⟩

/-- A method always shows something about its hooks. -/
theorem hooksText_ne_empty (rpc : Rpc) : hooksText rpc ≠ "" := by
  rw [hooksText]
  cases rpc.middlewares.zip rpc.indices with
  | nil => decide
  | cons hook hooks =>
    refine intercalate_ne_empty fun htext => ?_
    have hlist := congrArg String.toList htext
    simp at hlist

/-- The middlewares of a method that can be written are dotted names. -/
theorem MethodDef.isDotted_of_rpc {IsBody : String → Prop} {method : MethodDef String}
    (hmethod : method.WellFormed IsBody) {rpc : Rpc} (h : method.rpc = .ok rpc) :
    ∀ ref ∈ rpc.middlewares, IsDotted ref.path := by
  obtain ⟨signature, _, h⟩ := bind_eq_ok_iff.mp h
  obtain ⟨refs, hrefs, h⟩ := bind_eq_ok_iff.mp h
  rw [← Except.ok.inj h]
  exact isDotted_of_middlewaresOf hmethod.annotations hrefs

/-- An accepted method is shown in a line. -/
theorem ImplDef.shownInLine_of_service {impl : ImplDef String} (himpl : impl.WellFormed IsClean)
    {service : Service} (h : impl.service = .ok service) {rpc : Rpc}
    (hmem : rpc ∈ service.methods) : ShownInLine rpc := by
  have hnamed := wellNamed_of_service himpl h rpc hmem
  obtain ⟨method, hmethod, unresolved, indices, hrpc, rfl⟩ := exists_rpc_of_service h hmem
  have hformed := himpl.methods method hmethod
  have hname : isName unresolved.name.toList := (MethodDef.keeps_of_rpc hrpc).name ▸ hformed.name
  have hpaths := MethodDef.isDotted_of_rpc hformed hrpc
  constructor
  · simp only [methodCells, List.forall_mem_cons]
    exact ⟨printed_of_isName hname, hnamed.request.printed, hnamed.response.printed,
      printed_hooksText hpaths, by simp⟩
  · simp only [methodCells, List.forall_mem_cons]
    refine ⟨fun hempty => ?_, hnamed.request.unmarked.canonical_ne_empty,
      hnamed.response.unmarked.canonical_ne_empty, hooksText_ne_empty _, by simp⟩
    exact ne_nil_of_isName hname (by rw [hempty, String.toList_empty])

end Interpose
