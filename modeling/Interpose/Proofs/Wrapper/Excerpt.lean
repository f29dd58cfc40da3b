import Interpose.Proofs.Source.Terminals
import Interpose.Proofs.Wrapper.Lines
import Mathlib.Data.List.Nodup

/-!
# Excerpts of generated texts

A generated text is read by its lines: a class begins at a line that begins with its keyword, and
its parts stand between an opening line and a closing one. These excerpts are found in a list of
lines as soon as no line before begins as the opening one does.
-/

namespace Interpose.Text

open Source

/-- Whether a line begins with some text. -/
def begins (front line : String) : Bool := front.toList.isPrefixOf line.toList

/-- The lines after the first one that passes a test. -/
def linesAfter (opens : String → Bool) (lines : List String) : List String :=
  (lines.dropWhile fun line => !opens line).tail

/-- The lines before the first one that passes a test. -/
def linesUntil (closes : String → Bool) (lines : List String) : List String :=
  lines.takeWhile fun line => !closes line

/-- The lines between the first one that opens them and the next one that closes them. -/
def linesBetween (opens closes : String → Bool) (lines : List String) : List String :=
  linesUntil closes (linesAfter opens lines)

/-- The lines of the first class of a text, without its first line. -/
def firstClass (text : String) : List String :=
  linesBetween (begins "class ") (begins "class ") (linesOf text)

/-- The lines of a text from its second class on, without their first line. -/
def secondClass (text : String) : List String :=
  linesAfter (begins "class ") (linesAfter (begins "class ") (linesOf text))

/-! ## Beginnings -/

theorem begins_eq_true_iff {front line : String} :
    begins front line = true ↔ front.toList <+: line.toList :=
  List.isPrefixOf_iff_prefix

/-- A line that begins with a text begins with the front of that text. -/
theorem begins_of_begins_append (more : String) {front line : String}
    (h : begins (front ++ more) line = true) :
    begins front line = true := by
  rw [begins_eq_true_iff, String.toList_append] at *
  exact (List.prefix_append _ _).trans h

/-- A line does not begin with two texts of which none begins with the other. -/
theorem begins_eq_false_of_begins {front other line : String} (h : begins other line = true)
    (hfront : begins front other = false) (hother : begins other front = false) :
    begins front line = false := by
  rw [← Bool.not_eq_true] at *
  rw [begins_eq_true_iff] at *
  intro hline
  rcases List.prefix_or_prefix_of_prefix hline h with hprefix | hprefix
  · exact hfront hprefix
  · exact hother hprefix

/-- What does not begin with a text does not begin with one that goes on behind it. -/
theorem begins_append_eq_false (more : String) {front line : String}
    (h : begins front line = false) : begins (front ++ more) line = false := by
  rw [← Bool.not_eq_true] at *
  exact fun hmore => h (begins_of_begins_append more hmore)

/-- Two names that stand before parentheses behind one front are the same. -/
theorem eq_of_begins_parenthesis {front name other rest : String} (hname : '(' ∉ name.toList)
    (hother : '(' ∉ other.toList)
    (h : begins (front ++ name ++ "(") (front ++ other ++ "(" ++ rest) = true) : other = name := by
  have htake : ∀ cs rest : List Char, '(' ∉ cs → (cs ++ '(' :: rest).takeWhile (· ≠ '(') = cs := by
    intro cs rest hcs
    refine takeWhile_append_of_head (List.all_eq_true.mpr fun c hmem => ?_) (by simp)
    simpa using ne_of_mem_of_not_mem hmem hcs
  obtain ⟨after, h⟩ := begins_eq_true_iff.mp h
  have hfronts : name.toList ++ '(' :: after = other.toList ++ '(' :: rest.toList := by
    have hwhole : front.toList ++ (name.toList ++ '(' :: after) =
        front.toList ++ (other.toList ++ '(' :: rest.toList) := by simpa using h
    exact List.append_cancel_left hwhole
  have hnames := congrArg (List.takeWhile (· ≠ '(')) hfronts
  rw [htake _ _ hname, htake _ _ hother] at hnames
  exact (String.toList_inj.mp hnames).symm

/-! ## Excerpts of concatenations -/

variable {opens closes : String → Bool} {before inner rest : List String} {opening closing : String}

theorem linesAfter_append (hbefore : ∀ line ∈ before, opens line = false)
    (hopening : opens opening = true) : linesAfter opens (before ++ opening :: rest) = rest := by
  have hpos : ∀ line ∈ before, (!opens line) = true := by simpa using hbefore
  rw [linesAfter, List.dropWhile_append_of_pos hpos,
    List.dropWhile_cons_of_neg (by simp [hopening]), List.tail_cons]

theorem linesUntil_append (hinner : ∀ line ∈ inner, closes line = false)
    (hclosing : closes closing = true) :
    linesUntil closes (inner ++ closing :: rest) = inner := by
  have hpos : ∀ line ∈ inner, (!closes line) = true := by simpa using hinner
  rw [linesUntil, List.takeWhile_append_of_pos hpos,
    List.takeWhile_cons_of_neg (by simp [hclosing]), List.append_nil]

/-- The last lines of a text are not closed by another one. -/
theorem linesUntil_eq_self (h : ∀ line ∈ inner, closes line = false) :
    linesUntil closes inner = inner :=
  List.takeWhile_eq_self_iff.mpr (by simpa using h)

theorem linesBetween_append (hbefore : ∀ line ∈ before, opens line = false)
    (hopening : opens opening = true) (hinner : ∀ line ∈ inner, closes line = false)
    (hclosing : closes closing = true) :
    linesBetween opens closes (before ++ opening :: (inner ++ closing :: rest)) = inner := by
  rw [linesBetween, linesAfter_append hbefore hopening, linesUntil_append hinner hclosing]

/-! ## Sections -/

section

variable {α : Type} {title : α → String} {inner : α → List String}

/-- Sections one after the other. An empty line and a title stand before the lines of each. -/
def sections (title : α → String) (inner : α → List String) (items : List α) : List String :=
  items.flatMap fun item => "" :: title item :: inner item

theorem sections_cons (item : α) (items : List α) : sections title inner (item :: items) =
    "" :: title item :: (inner item ++ sections title inner items) := rfl

theorem sections_append (before after : List α) : sections title inner (before ++ after) =
    sections title inner before ++ sections title inner after :=
  List.flatMap_append

/-- A section stands behind lines that do not open it, when the titles begin with distinct names and
no other line begins as a title does. -/
theorem exists_split_sections {front : String} {key : α → String} {head : List String}
    (tail : List String) {items : List α} (hfront : begins front "" = false)
    (htitle : ∀ item, ∃ rest, title item = front ++ key item ++ "(" ++ rest)
    (hkeys : (items.map key).Nodup) (hplain : ∀ item ∈ items, '(' ∉ (key item).toList)
    (hhead : ∀ line ∈ head, begins front line = false)
    (hinner : ∀ item, ∀ line ∈ inner item, begins front line = false) {item : α}
    (hmem : item ∈ items) :
    ∃ before after, head ++ sections title inner items ++ tail =
        before ++ title item :: (inner item ++ (sections title inner after ++ tail)) ∧
      (∀ line ∈ before, begins (front ++ key item ++ "(") line = false) ∧
      begins (front ++ key item ++ "(") (title item) = true := by
  obtain ⟨before, after, rfl⟩ := List.append_of_mem hmem
  rw [List.map_append, List.map_cons] at hkeys
  have hother : ∀ line, begins front line = false →
      begins (front ++ key item ++ "(") line = false := by
    intro line hline
    rw [String.append_assoc]
    exact begins_append_eq_false _ hline
  -- The sections before have other names, so none of them is opened by this one's.
  have hbefore : ∀ other ∈ before, begins (front ++ key item ++ "(") (title other) = false := by
    intro other hin
    rw [← Bool.not_eq_true]
    intro hbegins
    obtain ⟨rest, hrest⟩ := htitle other
    have hname : key other = key item := eq_of_begins_parenthesis (hplain item (by simp))
      (hplain other (by simp [hin])) (hrest ▸ hbegins)
    exact List.disjoint_of_nodup_append hkeys (List.mem_map_of_mem hin) (by simp [hname])
  have hitem : begins (front ++ key item ++ "(") (title item) = true := by
    obtain ⟨rest, hrest⟩ := htitle item
    rw [hrest, begins_eq_true_iff]
    exact ⟨rest.toList, String.toList_append.symm⟩
  have hsections : ∀ line ∈ sections title inner before,
      begins (front ++ key item ++ "(") line = false := by
    rw [sections, List.forall_mem_flatMap]
    intro other hin
    refine List.forall_mem_cons.mpr ⟨hother "" hfront, List.forall_mem_cons.mpr
      ⟨hbefore other hin, fun line hline => hother line (hinner other line hline)⟩⟩
  refine ⟨head ++ sections title inner before ++ [""], after, ?_, ?_, hitem⟩
  · rw [sections_append, sections_cons]
    simp only [List.append_assoc, List.cons_append, List.nil_append]
  · rw [List.forall_mem_append, List.forall_mem_append]
    exact ⟨⟨fun line hline => hother line (hhead line hline), hsections⟩,
      List.forall_mem_singleton.mpr (hother "" hfront)⟩

/-- The lines of a section stand after its title. -/
theorem linesAfter_sections {front : String} {key : α → String} {head tail : List String}
    {items : List α} (hfront : begins front "" = false)
    (htitle : ∀ item, ∃ rest, title item = front ++ key item ++ "(" ++ rest)
    (hkeys : (items.map key).Nodup) (hplain : ∀ item ∈ items, '(' ∉ (key item).toList)
    (hhead : ∀ line ∈ head, begins front line = false)
    (hinner : ∀ item, ∀ line ∈ inner item, begins front line = false) {item : α}
    (hmem : item ∈ items) :
    ∃ after, linesAfter (begins (front ++ key item ++ "("))
      (head ++ sections title inner items ++ tail) =
        inner item ++ (sections title inner after ++ tail) := by
  obtain ⟨before, after, hlines, hbefore, hitem⟩ :=
    exists_split_sections tail hfront htitle hkeys hplain hhead hinner hmem
  exact ⟨after, hlines ▸ linesAfter_append hbefore hitem⟩

/-- The title of a section is the first line that begins with its name. -/
theorem find?_sections {front : String} {key : α → String} {head tail : List String}
    {items : List α} (hfront : begins front "" = false)
    (htitle : ∀ item, ∃ rest, title item = front ++ key item ++ "(" ++ rest)
    (hkeys : (items.map key).Nodup) (hplain : ∀ item ∈ items, '(' ∉ (key item).toList)
    (hhead : ∀ line ∈ head, begins front line = false)
    (hinner : ∀ item, ∀ line ∈ inner item, begins front line = false) {item : α}
    (hmem : item ∈ items) :
    (head ++ sections title inner items ++ tail).find? (begins (front ++ key item ++ "(")) =
      some (title item) := by
  obtain ⟨before, after, hlines, hbefore, hitem⟩ :=
    exists_split_sections tail hfront htitle hkeys hplain hhead hinner hmem
  have hnone : before.find? (begins (front ++ key item ++ "(")) = none := by
    rw [List.find?_eq_none]
    simpa only [Bool.not_eq_true] using hbefore
  rw [hlines, List.find?_append, hnone, Option.none_or, List.find?_cons_of_pos hitem]

end

end Interpose.Text
