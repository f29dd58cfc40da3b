import Interpose.Proofs.Source.Cut
import Interpose.Definition.Basic

/-!
# Texts one below the other

A text that stands below another one is scanned there as it is scanned alone, each of its tokens as
many lines further down as the text above has. What is ignored at the end of the text above ends
with its last line, so it hides nothing of the text below.
-/

namespace Interpose

namespace Source

/-- The place with some characters and some lines more before it. -/
def Place.lower (chars lines : Nat) (place : Place) : Place :=
  ⟨place.offset + chars, place.line + lines, place.column⟩

/-- The tokens of a text and where it is stuck, with some characters and some lines more before
it. -/
def Scan.lower (chars lines : Nat) (scan : Scan) : Scan where
  tokens := scan.tokens.map fun placed => ⟨placed.token, placed.place.lower chars lines⟩
  stuck := scan.stuck.map (·.lower chars lines)

variable {chars lines : Nat} {mode : Mode} {place : Place}

/-! ## Places -/

@[simp] theorem Place.lower_next (place : Place) (c : Char) :
    (place.lower chars lines).next c = (place.next c).lower chars lines := by
  unfold next
  by_cases hc : c = '\n'
  · rw [if_pos hc, if_pos hc]
    simp only [lower, Place.mk.injEq, and_true]
    omega
  · rw [if_neg hc, if_neg hc]
    simp only [lower, Place.mk.injEq, and_true]
    omega

@[simp] theorem Place.lower_after (place : Place) (cs : List Char) :
    (place.lower chars lines).after cs = (place.after cs).lower chars lines := by
  induction cs generalizing place with
  | nil => rfl
  | cons c cs ih =>
    change ((place.lower chars lines).next c).after cs = ((place.next c).after cs).lower chars lines
    rw [lower_next, ih]

/-- The first place on the line below a text. -/
theorem Place.after_line (cs : List Char) : Place.start.after (cs ++ ['\n']) =
    Place.start.lower (cs.length + 1) (1 + cs.count '\n') := by
  have hnext : ∀ place : Place, place.after ['\n'] = ⟨place.offset + 1, place.line + 1, 1⟩ :=
    fun _ => rfl
  rw [after_append, hnext, offset_after, line_after]
  simp only [start, lower, Place.mk.injEq, and_true]
  omega

/-! ## Scanning below -/

/-- Where a text stands shows in the places of its tokens only. -/
theorem scanFrom_lower (mode : Mode) (place : Place) (cs : List Char) :
    scanFrom mode (place.lower chars lines) cs = (scanFrom mode place cs).lower chars lines := by
  fun_induction scanFrom mode place cs with
  | case1 mode place cs hend =>
    rw [scanFrom, if_pos hend]
    rfl
  | case2 mode place cs begin hne hnone =>
    rw [scanFrom, if_neg hne, Place.lower_after]
    split
    · rfl
    · rename_i hsome
      exact absurd (hsome.symm.trans hnone) (by simp)
  | case3 mode place cs begin hne token rest hmunch more ih =>
    rw [scanFrom, if_neg hne, Place.lower_after]
    split
    · rename_i hnone
      exact absurd (hnone.symm.trans hmunch) (by simp)
    · rename_i found left hsome
      obtain ⟨rfl, rfl⟩ : found = token ∧ left = rest := by simpa [hsome] using hmunch
      rw [Place.lower_after, ih]
      rfl

/-- Complete ignored text before a text moves its tokens only. -/
theorem Spacing.scanFrom {gap : List Char} (h : Spacing gap) (mode : Mode) (place : Place)
    (cs : List Char) : scanFrom mode place (gap ++ cs) = scanFrom mode (place.after gap) cs := by
  rw [Source.scanFrom, Source.scanFrom, h.splitGap_append, Place.after_append]

/-- Tokens that are read from the front of a text are scanned before those of the rest. -/
theorem Munches.scanFrom {items : List Spaced} {rest : List Char} (h : Munches mode items rest)
    (place : Place) : scanFrom mode place (spread items ++ rest) =
      ⟨spreadPlaces place items ++
        (scanFrom (modeAfter mode items) (place.after (spread items)) rest).tokens,
        (scanFrom (modeAfter mode items) (place.after (spread items)) rest).stuck⟩ := by
  induction h generalizing place with
  | nil => rfl
  | @cons mode item items rest hgap hmunch _ ih =>
    have hsplit : (splitGap false (item.token.lexeme ++ (spread items ++ rest))).2 =
        item.token.lexeme ++ (spread items ++ rest) := by
      rw [splitGap_of_munch hmunch]
    have hne : item.token.lexeme ++ (spread items ++ rest) ≠ [] := by
      simp [lexeme_ne_nil_of_munch hmunch]
    rw [spread_cons_append, hgap.scanFrom, Source.scanFrom, hsplit, if_neg hne,
      splitGap_of_munch hmunch]
    split
    · rename_i hnone
      exact absurd (hnone.symm.trans hmunch) (by simp)
    · rename_i token left hsome
      obtain ⟨rfl, rfl⟩ : token = item.token ∧ left = spread items ++ rest := by
        simpa [hsome] using hmunch
      rw [Place.after_nil, ih]
      simp [spreadPlaces, modeAfter, spread, Spaced.text]

/-- What is ignored at the end of a text is complete with the end of its line. -/
theorem Trailing.spacing_line {cs : List Char} (h : Trailing cs) : Spacing (cs ++ ['\n']) := by
  have hline : Spacing ['\n'] := .space rfl .nil
  rcases h with hspacing | ⟨spacing, text, hspacing, htext, rfl⟩
  · exact hspacing.append hline
  · rw [List.append_assoc, List.cons_append]
    exact hspacing.append (.comment htext .nil)

/-- Below a text whose last token can be followed by a keyword or a mark, a text is scanned as it is
alone. -/
theorem scan_below {cut : Cut} {above : List Char} (hcut : cut.Cuts above)
    (hmunches : Munches .operator cut.items cut.trailer)
    (hmode : modeAfter .operator cut.items = .operator) (below : List Char) :
    scan (above ++ '\n' :: below) =
      ⟨(scan above).tokens ++
        ((scan below).lower (above.length + 1) (1 + above.count '\n')).tokens,
        ((scan below).lower (above.length + 1) (1 + above.count '\n')).stuck⟩ := by
  have hspacing := hcut.trailer.spacing_line
  have hopens : OpensGap (cut.trailer ++ '\n' :: below) := by
    have hgap := hspacing.opensGap_append (by simp) below
    rwa [List.append_assoc] at hgap
  have hwhole : above ++ '\n' :: below =
      spread cut.items ++ ((cut.trailer ++ ['\n']) ++ below) := by
    rw [← hcut.whole, Cut.text, List.append_assoc, List.append_assoc]
    rfl
  have hplace : (Place.start.after (spread cut.items)).after (cut.trailer ++ ['\n']) =
      Place.start.lower (above.length + 1) (1 + above.count '\n') := by
    rw [← Place.after_append, ← List.append_assoc, ← Place.after_line, ← hcut.whole]
    rfl
  have hbelow : scanFrom .operator (Place.start.after (spread cut.items))
      ((cut.trailer ++ ['\n']) ++ below) =
        (scan below).lower (above.length + 1) (1 + above.count '\n') := by
    rw [hspacing.scanFrom, hplace, scanFrom_lower, scan]
  have hmore : Munches .operator cut.items ((cut.trailer ++ ['\n']) ++ below) := by
    rw [List.append_assoc]
    exact hmunches.before hopens
  rw [scan, hwhole, hmore.scanFrom, hmode, hbelow, hcut.tokens]

end Source

/-- The span as many lines further down. -/
def Span.lower (lines : Nat) (span : Span) : Span :=
  ⟨span.line.map (· + (lines : Int)), span.column⟩

theorem Span.lower_ofPlace (chars lines : Nat) (place : Source.Place) :
    Span.lower lines (.ofPlace place) = .ofPlace (place.lower chars lines) := by
  simp [lower, ofPlace, Source.Place.lower]

end Interpose
