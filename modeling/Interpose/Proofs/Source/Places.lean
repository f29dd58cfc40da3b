import Interpose.Definition.Basic

/-!
# The order of places

The lines and columns of a text go up with its characters, so the place of a character tells what
stands before it.
-/

namespace Interpose.Source

namespace Place

/-- One place stands before another: on an earlier line, or further left on the same line. -/
def Before (place other : Place) : Prop :=
  place.line < other.line ∨ place.line = other.line ∧ place.column < other.column

variable {place other next : Place}

theorem Before.trans (h : place.Before other) (hnext : other.Before next) : place.Before next := by
  unfold Before at *
  omega

/-- Every character moves the place on. -/
theorem before_next (place : Place) (c : Char) : place.Before (place.next c) := by
  unfold next
  split
  · exact .inl (Nat.lt_succ_self _)
  · exact .inr ⟨rfl, Nat.lt_succ_self _⟩

theorem before_after {cs : List Char} (h : cs ≠ []) (place : Place) :
    place.Before (place.after cs) := by
  induction cs generalizing place with
  | nil => exact absurd rfl h
  | cons c cs ih =>
    have hfirst := before_next place c
    cases cs with
    | nil => exact hfirst
    | cons d cs => exact hfirst.trans (ih (by simp) (place.next c))

end Place

/-- A span tells the line and the column of its place. -/
theorem ofPlace_eq_iff {place other : Place} : Span.ofPlace place = .ofPlace other ↔
    place.line = other.line ∧ place.column = other.column := by
  simp only [Span.ofPlace, Span.mk.injEq, Option.some.injEq]
  omega

/-- A place before another has a different span. -/
theorem Place.Before.ofPlace_ne {place other : Place} (h : place.Before other) :
    Span.ofPlace place ≠ .ofPlace other := by
  rw [Ne, ofPlace_eq_iff]
  unfold Place.Before at h
  omega

/-- Different stretches at the front of a text end at different spans. -/
theorem eq_of_ofPlace_after {before other text : List Char} (hbefore : before <+: text)
    (hother : other <+: text)
    (h : Span.ofPlace (Place.start.after before) = .ofPlace (Place.start.after other)) :
    before = other := by
  have hlonger : ∀ {short long : List Char}, short <+: long →
      Span.ofPlace (Place.start.after short) = .ofPlace (Place.start.after long) →
      short = long := by
    rintro short _ ⟨more, rfl⟩ hspan
    by_cases hmore : more = []
    · rw [hmore, List.append_nil]
    · have hafter := Place.before_after hmore (Place.start.after short)
      rw [Place.after_append] at hspan
      exact absurd hspan hafter.ofPlace_ne
  rcases List.prefix_or_prefix_of_prefix hbefore hother with hle | hle
  · exact hlonger hle h
  · exact (hlonger hle h.symm).symm

end Interpose.Source
