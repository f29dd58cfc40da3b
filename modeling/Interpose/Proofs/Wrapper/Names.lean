import Interpose.Service.Basic
import Interpose.Wrapper.Names

/-!
# Names that no class takes for itself

The body of a method whose name begins with another character than an underscore is held and looked
up under one name, whichever class the name is written in. Other bodies are private to their class:
a class and its wrapper have different names for them. Different methods have different bodies.
-/

namespace Interpose

/-- A name begins with a character other than an underscore. -/
def BeginsPlain (name : String) : Prop := ∃ c ∈ name.toList.head?, c ≠ '_'

instance (name : String) : Decidable (BeginsPlain name) :=
  decidable_of_iff (name.toList.head?.any (· ≠ '_') = true)
    (by simp [BeginsPlain, Option.any_eq_true])

/-- A name that does not begin with another character begins with an underscore. -/
theorem underscore_prefix_of_not_beginsPlain {name : String} (hne : name ≠ "")
    (h : ¬ BeginsPlain name) : ['_'] <+: name.toList := by
  have hlist : name.toList ≠ [] := by simpa using hne
  obtain ⟨c, rest, hname⟩ := List.exists_cons_of_ne_nil hlist
  obtain rfl : c = '_' := Decidable.not_not.mp fun hc => h ⟨c, by simp [hname], hc⟩
  exact ⟨rest, hname.symm⟩

/-- A number is written with digits. -/
theorem isDigit_of_mem_toString {n : Nat} {c : Char} (h : c ∈ (toString n).toList) :
    c.isDigit = true := by
  rw [Nat.toString_eq_repr, Nat.toList_repr] at h
  exact Nat.isDigit_of_mem_toDigits (by decide) (by decide) h

/-- Different numbers are written differently: the digits are read back. -/
theorem toString_injective : Function.Injective fun n : Nat => toString n := by
  intro m n h
  have hlists := congrArg String.toList h
  simp only [Nat.toString_eq_repr, Nat.toList_repr] at hlists
  have hdigits := congrArg (fun ds => Nat.ofDigitChars 10 ds 0) hlists
  simpa only [Nat.ofDigitChars_toDigits (b := 10) (by decide) (by decide)] using hdigits

/-- Different methods have different names for their bodies. -/
theorem bodyName_injective : Function.Injective bodyName := by
  intro a b h
  have hl := congrArg String.toList h
  simp only [bodyName, String.toList_append, List.append_assoc, List.append_cancel_left_eq,
    List.append_cancel_right_eq] at hl
  exact String.toList_inj.mp hl

/-- The name of a body holds a parenthesis when the name of its method does. -/
theorem parenthesis_notMem_bodyName_iff {name : String} :
    '(' ∉ (bodyName name).toList ↔ '(' ∉ name.toList := by
  simp [bodyName]

/-- The front of the line that opens a body ends in the body's name and a parenthesis. -/
theorem bodyFront_eq (name : String) :
    "    async def _" ++ name ++ "_impl(" = "    async def " ++ bodyName name ++ "(" := by
  rw [← String.toList_inj]
  simp [bodyName]

/-- No class takes a name for itself that is not private. -/
theorem attributeWithin_of_not_private {name : String} (h : isPrivate name.toList = false)
    (className : String) : attributeWithin className name = name := by
  have hwithin : nameWithin className.toList name.toList = name.toList := by
    unfold nameWithin
    split
    · rfl
    · rw [h]
      rfl
  rw [attributeWithin, hwithin, String.ofList_toList]

/-- No class takes the name of such a method's body for itself. -/
theorem attributeWithin_bodyName {name : String} (h : BeginsPlain name) (className : String) :
    attributeWithin className (bodyName name) = bodyName name := by
  obtain ⟨c, hhead, hc⟩ := h
  obtain ⟨cs, hn⟩ := List.head?_eq_some_iff.mp hhead
  refine attributeWithin_of_not_private ?_ className
  simp [isPrivate, bodyName, hn, hc]

/-- The body of a method whose name begins with an underscore is private to its class. -/
theorem isPrivate_bodyName {name : String} (h : ['_'] <+: name.toList) :
    isPrivate (bodyName name).toList = true := by
  obtain ⟨rest, hname⟩ := h
  simp [isPrivate, bodyName, ← hname]

/-- A name without the underscores that it begins with, and that of its wrapper. -/
theorem dropWhile_wrapperName (implementor : String) :
    (wrapperName implementor).toList.dropWhile (· = '_') =
      implementor.toList.dropWhile (· = '_') ++ "MiddlewareWrapper".toList := by
  rw [wrapperName, String.toList_append, List.dropWhile_append]
  split
  · rename_i hempty
    rw [List.isEmpty_iff.mp hempty]
    rfl
  · rfl

/-- A class and its wrapper have different names for what is private to them. -/
theorem attributeWithin_wrapperName_ne {name : String} (h : isPrivate name.toList = true)
    (implementor : String) :
    attributeWithin (wrapperName implementor) name ≠ attributeWithin implementor name := by
  intro heq
  have hlists := congrArg List.length (String.ofList_injective heq)
  have hlength : "MiddlewareWrapper".toList.length = 17 := rfl
  have hwithin : ∀ className : List Char, (nameWithin className name.toList).length =
      if className.dropWhile (· = '_') = [] then name.toList.length
      else (className.dropWhile (· = '_')).length + name.toList.length + 1 := by
    intro className
    unfold nameWithin
    split
    · rename_i hbare
      rw [if_pos hbare]
    · rename_i hbare
      rw [if_neg hbare, if_pos h]
      simp
  rw [hwithin, hwithin, dropWhile_wrapperName, if_neg (by simp), List.length_append,
    hlength] at hlists
  split at hlists <;> omega

/-- A wrapper looks a body up under the name with which its class holds it exactly when the method's
name does not begin with an underscore. -/
theorem attributeWithin_bodyName_eq_iff {name : String} (hne : name ≠ "") (implementor : String) :
    attributeWithin (wrapperName implementor) (bodyName name) =
      attributeWithin implementor (bodyName name) ↔ BeginsPlain name := by
  constructor
  · intro heq
    refine Decidable.by_contra fun hplain => ?_
    have hprivate := isPrivate_bodyName (underscore_prefix_of_not_beginsPlain hne hplain)
    exact attributeWithin_wrapperName_ne hprivate implementor heq
  · intro h
    rw [attributeWithin_bodyName h, attributeWithin_bodyName h]

end Interpose
