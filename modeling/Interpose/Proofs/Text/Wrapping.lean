import Interpose.Proofs.Text.Lines
import Interpose.Text.Wrapping
import Mathlib.Data.List.SplitBy

/-!
# Printed lines

A printed line that takes no more cells than there are stays as it is: its words are put together
again, and nothing is cut. A printed word that takes more cells stays in one line, which is cut.
-/

namespace Interpose.Text

/-- A line of characters that each take one cell. -/
def Printed (cs : List Char) : Prop := ∀ c ∈ cs, ' ' ≤ c ∧ c ≤ '~'

instance (cs : List Char) : Decidable (Printed cs) :=
  List.decidableBAll (fun c => ' ' ≤ c ∧ c ≤ '~') cs

theorem printed_append {cs ds : List Char} : Printed (cs ++ ds) ↔ Printed cs ∧ Printed ds :=
  List.forall_mem_append

theorem Printed.tail {c : Char} {cs : List Char} (h : Printed (c :: cs)) : Printed cs :=
  (List.forall_mem_cons.mp h).2

theorem Printed.of_prefix {cs ds : List Char} (h : Printed ds) (hfront : cs <+: ds) : Printed cs :=
  fun c hc => h c (hfront.subset hc)

theorem cellWidth_of_printed {c : Char} (h : ' ' ≤ c ∧ c ≤ '~') : cellWidth c = 1 := by
  rw [cellWidth, if_pos h]

/-- A printed line takes as many cells as it has characters. -/
theorem Printed.cells_eq {cs : List Char} (h : Printed cs) : cells cs = cs.length := by
  have hjoiner : joiner ∉ cs := fun hmem => absurd (h _ hmem).2 (by decide)
  have hselector : pictographic ∉ cs := fun hmem => absurd (h _ hmem).2 (by decide)
  have hwidths : cs.map cellWidth = List.replicate cs.length 1 := by
    refine List.eq_replicate_iff.mpr ⟨List.length_map _, fun width hwidth => ?_⟩
    obtain ⟨c, hc, rfl⟩ := List.mem_map.mp hwidth
    exact cellWidth_of_printed (h c hc)
  rw [cells_eq_foldr hjoiner hselector, hwidths, ← List.sum_eq_foldr, List.sum_replicate_nat,
    Nat.mul_one]

/-- Trimming leaves a front of a line. -/
theorem trimEnd_prefix (cs : List Char) : trimEnd cs <+: cs := by
  rw [trimEnd_eq_rdropWhile]
  exact List.rdropWhile_prefix _ _

/-- The words of a line make it up. -/
theorem flatten_words (cs : List Char) : (words cs).flatten = cs := by
  have hpieces := List.flatten_splitBy (fun c d => !(isBlank c && !isBlank d)) cs
  unfold words
  split
  · rename_i first word rest hsplit
    rw [hsplit] at hpieces
    split
    · rw [← hpieces, List.flatten_cons, List.flatten_cons, List.flatten_cons, List.append_assoc]
    · exact hpieces
  · exact hpieces

/-- Words that fit into a line are set into it. -/
theorem wrapWords_eq_singleton (fold : Bool) {width : Nat} {line : List Char}
    {rest : List (List Char)} (hprinted : Printed (line ++ rest.flatten))
    (hwidth : (line ++ rest.flatten).length ≤ width) :
    wrapWords fold width line rest = [line ++ rest.flatten] := by
  induction rest generalizing line with
  | nil => simp [wrapWords]
  | cons word rest ih =>
    rw [List.flatten_cons, ← List.append_assoc] at hprinted hwidth ⊢
    have hboth := (printed_append.mp hprinted).1
    obtain ⟨hline, hword⟩ := printed_append.mp hboth
    have htrim := trimEnd_prefix word
    have hfits : cells line + cells (trimEnd word) ≤ width := by
      rw [hline.cells_eq, (hword.of_prefix htrim).cells_eq]
      have hlength := htrim.length_le
      simp only [List.length_append] at hwidth
      omega
    rw [wrapWords, if_pos hfits]
    exact ih hprinted hwidth

/-- A printed line that fits is not wrapped. -/
theorem wrap_eq_singleton (fold : Bool) {width : Nat} {cs : List Char} (hprinted : Printed cs)
    (hwidth : cs.length ≤ width) : wrap fold width cs = [cs] := by
  have hwords := @wrapWords_eq_singleton fold width [] (words cs)
    (by rwa [List.nil_append, flatten_words]) (by rwa [List.nil_append, flatten_words])
  rw [wrap, hwords, List.nil_append, flatten_words, List.map_singleton, trimBeyond,
    List.take_of_length_le (Nat.le_trans hwidth (Nat.le_max_left ..))]

/-- A printed line that fits is not shortened. -/
theorem Printed.shorten_eq {width : Nat} {cs : List Char} (h : Printed cs)
    (hwidth : cs.length ≤ width) : shorten width cs = cs := by
  rw [shorten, h.cells_eq, if_pos hwidth]

/-! ## Words that are cut -/

/-- A word without blanks is the only one of its line. -/
theorem words_eq_singleton {cs : List Char} (hne : cs ≠ []) (h : ∀ c ∈ cs, isBlank c = false) :
    words cs = [cs] := by
  have hchain : cs.IsChain fun c d => (!(isBlank c && !isBlank d)) = true := by
    refine (List.pairwise_of_forall_mem_list fun c hc d _ => ?_).isChain
    simp [h c hc]
  rw [words, List.splitBy_of_isChain hne hchain]

/-- A word that is not folded stays in one line, however wide it is. -/
theorem wrap_of_word (width : Nat) {cs : List Char} (hne : cs ≠ [])
    (h : ∀ c ∈ cs, isBlank c = false) : wrap false width cs = [cs] := by
  have htrim : trimEnd cs = cs := by
    rw [trimEnd_eq_rdropWhile, List.rdropWhile_eq_self_iff]
    intro hlast
    rw [h _ (List.getLast_mem hlast)]
    decide
  have hline : wrapWords false width [] [cs] = [cs] := by
    rw [wrapWords]
    split
    · rfl
    · simp [wrapWords]
  rw [wrap, words_eq_singleton hne h, hline, List.map_singleton, trimBeyond, htrim,
    List.take_of_length_le (Nat.le_max_right ..)]

theorem Printed.takeCells_eq {cs : List Char} (h : Printed cs) {count : Nat}
    (hcount : count ≤ cs.length) : takeCells count cs = cs.take count := by
  induction cs generalizing count with
  | nil =>
    obtain rfl : count = 0 := Nat.le_zero.mp hcount
    rfl
  | cons c cs ih =>
    cases count with
    | zero => rfl
    | succ count =>
      have hwidth := cellWidth_of_printed (h c List.mem_cons_self)
      rw [takeCells, hwidth, if_pos (Nat.le_add_left ..), Nat.add_sub_cancel, List.take_succ_cons,
        ih h.tail (Nat.le_of_succ_le_succ hcount)]

/-- A printed line that takes more cells than there are is cut in front of the last one. -/
theorem Printed.shorten_of_lt {width : Nat} {cs : List Char} (h : Printed cs)
    (hwidth : width < cs.length) : shorten width cs = cs.take (width - 1) ++ ['…'] := by
  have hlong : ¬cells cs ≤ width := by
    rw [h.cells_eq]
    omega
  rw [shorten, if_neg hlong, h.takeCells_eq (by omega)]

end Interpose.Text
