import Interpose.Text.Lines
import Mathlib.Data.List.Basic

/-!
# Lists in parentheses

The items of a list in parentheses stand between commas, and the list ends at the parenthesis that
closes it. Commas and parentheses inside brackets belong to the items. A text with brackets in pairs
is read as a part of one item.
-/

namespace Interpose.Text

/-- Put characters at the front of the first of some items. -/
def prepend (front : List Char) : List (List Char) → List (List Char)
  | [] => [front]
  | item :: items => (front ++ item) :: items

/-- The items of a list up to the mark that closes it, inside of a number of brackets. -/
def items : Nat → List Char → List (List Char)
  | _, [] => [[]]
  | depth, c :: cs =>
    if c = '(' ∨ c = '[' then prepend [c] (items (depth + 1) cs)
    else if c = ')' ∨ c = ']' then
      if depth = 0 then [[]] else prepend [c] (items (depth - 1) cs)
    else if c = ',' ∧ depth = 0 then [] :: items 0 cs
    else prepend [c] (items depth cs)

theorem prepend_ne_nil (front : List Char) (parts : List (List Char)) :
    prepend front parts ≠ [] := by
  cases parts <;> simp [prepend]

theorem prepend_nil {parts : List (List Char)} (h : parts ≠ []) : prepend [] parts = parts := by
  cases parts with
  | nil => exact absurd rfl h
  | cons part parts => rfl

theorem prepend_prepend (front next : List Char) (parts : List (List Char)) :
    prepend front (prepend next parts) = prepend (front ++ next) parts := by
  cases parts with
  | nil => rfl
  | cons part parts => simp [prepend]

/-- There is always an item, if only an empty one. -/
theorem items_ne_nil (depth : Nat) (cs : List Char) : items depth cs ≠ [] := by
  cases cs with
  | nil => simp [items]
  | cons c cs =>
    rw [items]
    split
    · exact prepend_ne_nil _ _
    · split
      · split
        · simp
        · exact prepend_ne_nil _ _
      · split
        · simp
        · exact prepend_ne_nil _ _

/-! ## Parts of items -/

/-- A text that is a part of an item wherever it stands inside of a number of brackets. -/
def Passes (depth : Nat) (cs : List Char) : Prop :=
  ∀ rest, items depth (cs ++ rest) = prepend cs (items depth rest)

theorem passes_nil (depth : Nat) : Passes depth [] := by
  intro rest
  exact (prepend_nil (items_ne_nil depth rest)).symm

/-- Two parts of an item, one after the other, are a part of it. -/
theorem Passes.append {depth : Nat} {cs ds : List Char} (hcs : Passes depth cs)
    (hds : Passes depth ds) : Passes depth (cs ++ ds) := by
  intro rest
  rw [List.append_assoc, hcs, hds, prepend_prepend]

/-- A character that neither separates items nor is a bracket. -/
def IsPlain (c : Char) : Prop := c ∉ ['(', ')', '[', ']', ',']

/-- Plain characters are a part of an item. -/
theorem passes_of_plain {depth : Nat} {cs : List Char} (h : ∀ c ∈ cs, IsPlain c) :
    Passes depth cs := by
  induction cs with
  | nil => exact passes_nil depth
  | cons c cs ih =>
    obtain ⟨hc, hcs⟩ := List.forall_mem_cons.mp h
    simp only [IsPlain, List.mem_cons, List.not_mem_nil, or_false, not_or] at hc
    obtain ⟨hopen, hclose, hopen', hclose', hcomma⟩ := hc
    intro rest
    rw [List.cons_append, items, if_neg (by simp [hopen, hopen']),
      if_neg (by simp [hclose, hclose']), if_neg (by simp [hcomma]), ih hcs, prepend_prepend]
    rfl

/-- Inside of brackets a comma is a part of an item. -/
theorem passes_comma (depth : Nat) : Passes (depth + 1) [','] := by
  intro rest
  rw [List.cons_append, items, if_neg (by decide), if_neg (by decide), if_neg (by simp)]
  rfl

/-- Brackets in pairs are parts of items when what stands between them is. -/
theorem Passes.brackets {depth : Nat} {cs : List Char} (h : Passes (depth + 1) cs) :
    Passes depth ('[' :: (cs ++ [']'])) := by
  intro rest
  have hclose : items (depth + 1) (']' :: rest) = prepend [']'] (items depth rest) := by
    rw [items, if_neg (by decide), if_pos (by decide), if_neg (by simp), Nat.add_sub_cancel]
  rw [List.cons_append, List.append_assoc, items, if_pos (by decide), h, List.singleton_append,
    hclose, prepend_prepend, prepend_prepend]
  rfl

/-! ## Lists -/

/-- A closing bracket ends the items. -/
theorem items_close (rest : List Char) : items 0 (')' :: rest) = [[]] := by
  rw [items, if_neg (by decide), if_pos (by decide), if_pos rfl]

/-- A comma sets items apart. -/
theorem items_separator (rest : List Char) : items 0 (',' :: rest) = [] :: items 0 rest := by
  rw [items, if_neg (by decide), if_neg (by decide), if_pos ⟨rfl, rfl⟩]

/-- Texts that are parts of items are the items of the list that they make up. A blank stands before
each but the first one. -/
theorem items_intercalate {text : String} {texts : List String} (htext : Passes 0 text.toList)
    (htexts : ∀ other ∈ texts, Passes 0 other.toList) (rest : List Char) :
    items 0 ((", ".intercalate (text :: texts)).toList ++ ')' :: rest) =
      text.toList :: texts.map fun other => ' ' :: other.toList := by
  have hblank : Passes 0 [' '] := passes_of_plain (by simp [IsPlain])
  induction texts generalizing text with
  | nil =>
    rw [String.intercalate_singleton, htext, items_close, prepend, List.append_nil]
    rfl
  | cons next texts ih =>
    obtain ⟨hnext, hrest⟩ := List.forall_mem_cons.mp htexts
    have hcons : (", ".intercalate (text :: next :: texts)).toList ++ ')' :: rest = text.toList ++
        ',' :: ([' '] ++ ((", ".intercalate (next :: texts)).toList ++ ')' :: rest)) := by
      rw [String.intercalate_cons_cons]
      simp
    rw [hcons, htext, items_separator, hblank, ih hnext hrest, prepend, prepend, List.append_nil]
    rfl

end Interpose.Text
