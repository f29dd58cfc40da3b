import Interpose.Command.Summary
import Interpose.Proofs.Json.Reading
import Interpose.Proofs.Text.Wrapping
import Mathlib.Algebra.Order.BigOperators.Group.List
import Mathlib.Algebra.Order.Ring.Nat
import Mathlib.Data.List.MinMax

/-!
# What summaries hold

The table of methods has one line for each of them where it fits into the console. The JSON of a
summary has one member for each service and, in it, one for each method. They are found by their
names when these are distinct.
-/

namespace Interpose

namespace Json

/-- Values that are written alike are one value. -/
theorem render_injective (style : Style) :
    Function.Injective (render style : Json → String) := by
  intro value other h
  have hread := parse?_render style value
  rw [h, parse?_render] at hread
  exact (Option.some.inj hread).symm

/-- Members are looked at one after the other. -/
theorem field?_cons (key name : String) (value : Json) (members : List (String × Json)) :
    field? key (.obj ((name, value) :: members)) =
      if key = name then some value else field? key (.obj members) := by
  by_cases h : key = name
  · rw [if_pos h, field?, h, List.lookup_cons_self]
  · rw [if_neg h, field?, List.lookup_cons, beq_false_of_ne h]
    rfl

/-- A member is found by its key when the keys are distinct. -/
theorem field?_of_mem {members : List (String × Json)} (h : (members.map Prod.fst).Nodup)
    {key : String} {value : Json} (hmem : (key, value) ∈ members) :
    field? key (.obj members) = some value := by
  obtain ⟨before, after, rfl⟩ := List.append_of_mem hmem
  rw [List.map_append, List.map_cons] at h
  refine List.lookup_eq_some_iff.mpr ⟨before, after, rfl, fun member hmember => ?_⟩
  rw [bne_iff_ne]
  rintro rfl
  exact (List.nodup_append.mp h).2.2 _ (List.mem_map_of_mem hmember) _ List.mem_cons_self rfl

end Json

namespace Command

open Text

/-! ## The table of methods -/

/-- A cell on the left of a column that has room for it. -/
def cellText (form : TableForm) (column : Nat) (text : String) : List Char :=
  spaces form.before ++
    (text.toList ++ spaces (column - (form.before + form.after) - width text + form.after))

/-- The line of a method in a table of some methods that is not narrowed. -/
def methodLine (methods : List Rpc) (rpc : Rpc) : String :=
  String.ofList <| ((naturalWidths methodsForm (methodRows methods)).zip (methodCells rpc)).flatMap
    fun (column, text) => cellText methodsForm column text

/-- A printed text in a column that has room for it is shown in one line. -/
theorem cellLines_eq_singleton {form : TableForm} {column : Nat} {text : String}
    (hprinted : Printed text.toList) (hne : text ≠ "")
    (hroom : width text + (form.before + form.after) ≤ column) :
    cellLines form .left column text = [cellText form column text] := by
  have hwidth : width text = text.toList.length := hprinted.cells_eq
  have hpositive : 0 < text.toList.length := by simpa [List.length_pos_iff] using hne
  have hinner : text.toList.length ≤ column - (form.before + form.after) := by omega
  have hroom' : column - (form.before + form.after) ≠ 0 := by omega
  rw [cellLines, if_neg hroom', wrap_eq_singleton false hprinted hinner, List.map_singleton,
    fillCell, hprinted.shorten_eq hinner]
  simp [cellText, width, spaces, ← List.replicate_append_replicate]

/-- A printed word in a column that has less room is cut. -/
theorem cellLines_of_word {form : TableForm} {column : Nat} {text : String}
    (hprinted : Printed text.toList) (hword : ∀ c ∈ text.toList, isBlank c = false)
    (hmargins : form.before + form.after < column)
    (hroom : column < width text + (form.before + form.after)) :
    cellLines form .left column text = [spaces form.before ++
      (text.toList.take (column - (form.before + form.after) - 1) ++ ['…']) ++
        spaces form.after] := by
  have hwidth : width text = text.toList.length := hprinted.cells_eq
  have hlong : column - (form.before + form.after) < text.toList.length := by omega
  have hne : text.toList ≠ [] := List.ne_nil_of_length_pos (Nat.zero_lt_of_lt hlong)
  have hinner : column - (form.before + form.after) ≠ 0 := by omega
  have hfull : column - (form.before + form.after) - cells text.toList = 0 := by
    rw [hprinted.cells_eq]
    omega
  rw [cellLines, if_neg hinner, wrap_of_word _ hne hword, List.map_singleton, fillCell,
    hprinted.shorten_of_lt hlong, hfull]
  simp [spaces]

/-- Columns that fit into the console are not narrowed. -/
theorem narrow_eq_self {console : Nat} {columns : List Nat} (h : columns.sum ≤ console)
    (rounds : Nat) : narrow console rounds columns = columns := by
  cases rounds with
  | zero => rfl
  | succ rounds => rw [narrow, ← List.sum_eq_foldl_nat, if_pos h]

/-- A table that fits into the console has the widths of its cells. -/
theorem columnWidths_eq {console : Nat} {form : TableForm} {rows : List (List String)}
    (h : (naturalWidths form rows).sum ≤ console) :
    columnWidths console form rows = naturalWidths form rows := by
  have hmin : (naturalWidths form rows).map (min console) = naturalWidths form rows := by
    refine (List.map_congr_left fun column hmem => ?_).trans (List.map_id _)
    exact Nat.min_eq_right (Nat.le_trans (List.le_sum_of_mem hmem) h)
  rw [columnWidths, hmin, narrow_eq_self h]

/-- A column has room for each of its cells. -/
theorem room_of_mem (form : TableForm) {rows : List (List String)} {row : List String}
    (hrow : row ∈ rows) (column : Nat) :
    width (row.getD column "") + (form.before + form.after) ≤ naturalWidth form rows column := by
  refine Nat.add_le_add_right ?_ _
  exact List.le_max_of_le' 0 (List.mem_map_of_mem hrow) (Nat.le_refl _)

/-- A row all of whose cells are shown in one line is one line. -/
theorem rowLines_eq_singleton {form : TableForm} {columns : List Nat} {row : List String}
    (h : ∀ cell ∈ form.sides.zip (columns.zip row),
      cellLines form cell.1 cell.2.1 cell.2.2 = [cellText form cell.2.1 cell.2.2]) :
    rowLines form columns row = [String.ofList ((form.sides.zip (columns.zip row)).flatMap
      fun cell => cellText form cell.2.1 cell.2.2)] := by
  let shown := (form.sides.zip (columns.zip row)).map fun cell =>
    (cell.2.1, cellLines form cell.1 cell.2.1 cell.2.2)
  have hrow : rowLines form columns row =
      (List.range (max 1 (largest (shown.map fun cell => cell.2.length)))).map fun index =>
        String.ofList (shown.flatMap fun cell => cell.2.getD index (spaces cell.1)) := rfl
  have hshown : shown = (form.sides.zip (columns.zip row)).map fun cell =>
      (cell.2.1, [cellText form cell.2.1 cell.2.2]) :=
    List.map_congr_left fun cell hmem => by rw [← h cell hmem]
  have hheight : max 1 (largest (((form.sides.zip (columns.zip row)).map fun cell =>
      (cell.2.1, [cellText form cell.2.1 cell.2.2])).map fun cell => cell.2.length)) = 1 := by
    refine Nat.max_eq_left (List.max_le_of_forall_le _ 1 fun height hmem => ?_)
    obtain ⟨cell, hcell, rfl⟩ := List.mem_map.mp hmem
    obtain ⟨_, _, rfl⟩ := List.mem_map.mp hcell
    exact Nat.le_refl 1
  have hrange : List.range 1 = [0] := rfl
  rw [hrow, hshown, hheight, hrange, List.map_singleton, List.flatMap_map]
  rfl

/-- A method whose texts can be shown in a line. -/
structure ShownInLine (rpc : Rpc) : Prop where
  /-- All its texts are printed. -/
  printed : ∀ text ∈ methodCells rpc, Printed text.toList
  /-- None of them is empty. -/
  ne_empty : ∀ text ∈ methodCells rpc, text ≠ ""

/-- The table of methods fits into a console. -/
def TableFits (console : Nat) (methods : List Rpc) : Prop :=
  (naturalWidths methodsForm (methodRows methods)).sum ≤ console

/-- A table that fits has a line for each of its methods. -/
theorem methodLine_mem_serviceLines {console : Nat} {service : Service} {rpc : Rpc}
    (hmem : rpc ∈ service.methods) (hshown : ShownInLine rpc)
    (hfits : TableFits console service.methods) :
    methodLine service.methods rpc ∈ serviceLines console service := by
  have hrow : methodCells rpc ∈ methodRows service.methods :=
    List.mem_cons_of_mem _ (List.mem_map_of_mem hmem)
  have hcell (column : Nat) (text : String) (hcolumn : (methodCells rpc).getD column "" = text)
      (htext : text ∈ methodCells rpc) :
      let natural := naturalWidth methodsForm (methodRows service.methods) column
      cellLines methodsForm .left natural text = [cellText methodsForm natural text] := by
    have hroom := room_of_mem methodsForm hrow column
    rw [hcolumn] at hroom
    exact cellLines_eq_singleton (hshown.printed text htext) (hshown.ne_empty text htext) hroom
  have hlines : rowLines methodsForm
      (naturalWidths methodsForm (methodRows service.methods)) (methodCells rpc) =
        [methodLine service.methods rpc] := by
    refine rowLines_eq_singleton ?_
    refine List.forall_mem_cons.mpr ⟨hcell 0 _ rfl (by simp [methodCells]), ?_⟩
    refine List.forall_mem_cons.mpr ⟨hcell 1 _ rfl (by simp [methodCells]), ?_⟩
    refine List.forall_mem_cons.mpr ⟨hcell 2 _ rfl (by simp [methodCells]), ?_⟩
    exact List.forall_mem_singleton.mpr (hcell 3 _ rfl (by simp [methodCells]))
  have htable : methodLine service.methods rpc ∈ methodsTable console service.methods := by
    rw [methodsTable, tableLines, columnWidths_eq hfits]
    exact List.mem_flatMap.mpr ⟨methodCells rpc, hrow, by simp [hlines]⟩
  simp [serviceLines, htable]

/-- The line of a method shows its name and its types with blanks between them. -/
theorem exists_toList_methodLine (methods : List Rpc) (rpc : Rpc) :
    ∃ (first second third : Nat) (more : List Char), (methodLine methods rpc).toList =
      rpc.name.toList ++ (List.replicate (first + 1) ' ' ++ (rpc.request.canonical.toList ++
        (List.replicate (second + 1) ' ' ++ (rpc.response.canonical.toList ++
          (List.replicate (third + 1) ' ' ++ more))))) := by
  have hline : (methodLine methods rpc).toList =
      cellText methodsForm (naturalWidth methodsForm (methodRows methods) 0) rpc.name ++
      (cellText methodsForm (naturalWidth methodsForm (methodRows methods) 1)
        rpc.request.canonical ++
      (cellText methodsForm (naturalWidth methodsForm (methodRows methods) 2)
        rpc.response.canonical ++
      (cellText methodsForm (naturalWidth methodsForm (methodRows methods) 3)
        (hooksText rpc) ++ []))) := String.toList_ofList
  have hcell (column : Nat) (text : String) : cellText methodsForm column text =
      text.toList ++ List.replicate (column - 2 - width text + 1 + 1) ' ' := rfl
  rw [hline, hcell, hcell, hcell, List.append_assoc, List.append_assoc, List.append_assoc]
  exact ⟨_, _, _, _, rfl⟩

end Command

end Interpose
