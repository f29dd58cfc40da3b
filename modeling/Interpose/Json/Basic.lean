/-!
# JSON values

Values with integers of any size and objects that keep the order of their members. Their texts are
strings unless another type of texts is given. Two notions of equality are defined: `Json.decEq`,
which decides that two values are the same, and `Json.same`, under which a boolean equals the
integer that it counts as and the members of an object may stand in any order.
-/

namespace Interpose

/-- A JSON value. Numbers are integers. -/
inductive Json (τ : Type := String) where
  /-- The null value. -/
  | null
  /-- A truth value. -/
  | bool (value : Bool)
  /-- An integer of any size. -/
  | int (value : Int)
  /-- A text. -/
  | str (value : τ)
  /-- A list of values. -/
  | arr (items : List (Json τ))
  /-- Named members, in the order in which they were written. -/
  | obj (members : List (String × Json τ))
  deriving Repr, Inhabited

namespace Json

section

variable {τ : Type} [DecidableEq τ]

mutual

/-- Whether two values are the same value. -/
def beq : Json τ → Json τ → Bool
  | .null, .null => true
  | .bool a, .bool b => a == b
  | .int a, .int b => a == b
  | .str a, .str b => a == b
  | .arr a, .arr b => beqItems a b
  | .obj a, .obj b => beqMembers a b
  | _, _ => false

/-- Whether two lists hold the same values in the same order. -/
def beqItems : List (Json τ) → List (Json τ) → Bool
  | [], [] => true
  | a :: as, b :: bs => beq a b && beqItems as bs
  | _, _ => false

/-- Whether two objects hold the same members in the same order. -/
def beqMembers : List (String × Json τ) → List (String × Json τ) → Bool
  | [], [] => true
  | (k, a) :: as, (l, b) :: bs => k == l && (beq a b && beqMembers as bs)
  | _, _ => false

end

mutual

private theorem beq_refl : ∀ a : Json τ, beq a a = true
  | .null => rfl
  | .bool _ => by simp [beq]
  | .int _ => by simp [beq]
  | .str _ => by simp [beq]
  | .arr items => by rw [beq]; exact beqItems_refl items
  | .obj members => by rw [beq]; exact beqMembers_refl members

private theorem beqItems_refl : ∀ items : List (Json τ), beqItems items items = true
  | [] => rfl
  | a :: as => by simp [beqItems, beq_refl a, beqItems_refl as]

private theorem beqMembers_refl : ∀ members : List (String × Json τ),
    beqMembers members members = true
  | [] => rfl
  | (_, a) :: as => by simp [beqMembers, beq_refl a, beqMembers_refl as]

end

mutual

private theorem eq_of_beq : ∀ a b : Json τ, beq a b = true → a = b
  | .null, b, h => by cases b <;> simp_all [beq]
  | .bool _, b, h => by cases b <;> simp_all [beq]
  | .int _, b, h => by cases b <;> simp_all [beq]
  | .str _, b, h => by cases b <;> simp_all [beq]
  | .arr items, b, h => by
    cases b with
    | arr other => rw [eq_of_beqItems items other (by simpa [beq] using h)]
    | _ => simp [beq] at h
  | .obj members, b, h => by
    cases b with
    | obj other => rw [eq_of_beqMembers members other (by simpa [beq] using h)]
    | _ => simp [beq] at h

private theorem eq_of_beqItems : ∀ a b : List (Json τ), beqItems a b = true → a = b
  | [], b, h => by cases b <;> simp_all [beqItems]
  | v :: vs, b, h => by
    cases b with
    | nil => simp [beqItems] at h
    | cons w ws =>
      simp only [beqItems, Bool.and_eq_true] at h
      rw [eq_of_beq v w h.1, eq_of_beqItems vs ws h.2]

private theorem eq_of_beqMembers : ∀ a b : List (String × Json τ), beqMembers a b = true → a = b
  | [], b, h => by cases b <;> simp_all [beqMembers]
  | (k, v) :: vs, b, h => by
    cases b with
    | nil => simp [beqMembers] at h
    | cons m ws =>
      obtain ⟨l, w⟩ := m
      simp only [beqMembers, Bool.and_eq_true, beq_iff_eq] at h
      rw [h.1, eq_of_beq v w h.2.1, eq_of_beqMembers vs ws h.2.2]

end

instance decEq : DecidableEq (Json τ) := fun a b =>
  if h : beq a b = true then isTrue (eq_of_beq a b h)
  else isFalse fun e => h (e ▸ beq_refl a)

end

/-- The integer that a boolean or an integer counts as. -/
def count? : Json → Option Int
  | .bool b => some (if b then 1 else 0)
  | .int i => some i
  | _ => none

mutual

/-- Equality of values under which truth values count as one and zero and the order of an
object's members does not matter. -/
def same : Json → Json → Bool
  | .null, b => b == .null
  | .bool a, b => b.count? == some (if a then 1 else 0)
  | .int a, b => b.count? == some a
  | .str a, b => b == .str a
  | .arr as, b =>
    match b with
    | .arr bs => sameItems as bs
    | _ => false
  | .obj as, b =>
    match b with
    | .obj bs => as.length == bs.length && sameMembers as bs
    | _ => false

/-- Equality of lists, item by item. -/
def sameItems : List Json → List Json → Bool
  | [], bs => bs.isEmpty
  | a :: as, bs =>
    match bs with
    | [] => false
    | b :: bs => same a b && sameItems as bs

/-- Whether every member of the first list has an equal in the second. -/
def sameMembers : List (String × Json) → List (String × Json) → Bool
  | [], _ => true
  | (key, a) :: as, bs =>
    (match bs.lookup key with
      | some b => same a b
      | none => false) && sameMembers as bs

end

/-- The value of a member of an object. -/
def field? (key : String) : Json → Option Json
  | .obj members => members.lookup key
  | _ => none

end Json

end Interpose
