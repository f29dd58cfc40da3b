import Interpose.Proofs.Definition.Cleaned
import Interpose.Proofs.Definition.Names

/-!
# Printing and reading definitions

Reading undoes printing up to spans, and every definition that is read can be printed. The printed
text is read with all tokens at one place first; the reading at the actual places follows it step by
step, and so do the phases after it.
-/

namespace Interpose

open Source

variable {place : Place}

/-! ## Reading at the actual places -/

/-- A reading whose tokens all stand at one place can be made at their own places too. -/
theorem Reading.exists_run {tokens : List Placed} {reading goal : Reading} (last : Place)
    (h : (tokens.map (·.token)).foldlM (fun reading token => reading.step token place)
      (reading.mapSpan (Span.moveTo place)) = some goal) :
    ∃ next after, reading.run last tokens = .ok (next, after) ∧
      next.mapSpan (Span.moveTo place) = goal := by
  induction tokens generalizing reading last with
  | nil => exact ⟨reading, last, rfl, Option.some.inj h⟩
  | cons placed tokens ih =>
    obtain ⟨token, here⟩ := placed
    have hmove : Span.moveTo place (.ofPlace here) = .ofPlace place := rfl
    rw [List.map_cons, List.foldlM_cons, step_mapSpan hmove token reading] at h
    cases hstep : reading.step token here with
    | none => simp [hstep] at h
    | some between =>
      rw [hstep] at h
      obtain ⟨next, after, hrun, hnext⟩ := ih here h
      exact ⟨next, after, by rw [run, hstep]; exact hrun, hnext⟩

/-- A reading whose tokens stand at their own places can be made at one place too. -/
theorem Reading.foldlM_of_run {tokens : List Placed} {reading next : Reading} {last after : Place}
    (place : Place) (h : reading.run last tokens = .ok (next, after)) :
    (tokens.map (·.token)).foldlM (fun reading token => reading.step token place)
      (reading.mapSpan (Span.moveTo place)) = some (next.mapSpan (Span.moveTo place)) := by
  induction tokens generalizing reading last with
  | nil =>
    obtain ⟨rfl, _⟩ : reading = next ∧ last = after := by simpa [run] using h
    rfl
  | cons placed tokens ih =>
    obtain ⟨token, here⟩ := placed
    have hmove : Span.moveTo place (.ofPlace here) = .ofPlace place := rfl
    rw [run] at h
    rw [List.map_cons, List.foldlM_cons, step_mapSpan hmove token reading]
    cases hstep : reading.step token here with
    | none => simp [hstep] at h
    | some between =>
      rw [hstep] at h
      exact ih h

/-- A text that a reading goes over with its tokens at one place is read, and spans aside the
definition is the one that is read at that place. -/
theorem exists_readDefinition_of_reads {text : List Char} {definition : Definition Fenced}
    (h : Reading.start.Reads place definition .operator text) :
    ∃ read, readDefinition text = .ok read ∧
      read.mapSpan (Span.moveTo place) (Fenced.mapSpan (Span.moveTo place)) = definition := by
  obtain ⟨goal, hfeeds, hgoal⟩ := h
  obtain ⟨hstuck, htokens⟩ := hfeeds.scanFrom .start
  have hstart : Reading.start.mapSpan (Span.moveTo place) = Reading.start := rfl
  rw [← hstart] at htokens
  obtain ⟨last, after, hrun, rfl⟩ := Reading.exists_run .start htokens
  rw [Reading.done?_mapSpan, Option.map_eq_some_iff] at hgoal
  obtain ⟨read, hdone, hread⟩ := hgoal
  refine ⟨read, ?_, hread⟩
  exact readDefinition_eq_ok_iff.mpr
    (Definition.ofScan_eq_ok_iff.mpr ⟨hstuck, last, after, hrun, hdone⟩)

/-- The text of a printed definition is read, and spans aside the definition is the printed one. -/
theorem exists_readDefinition_print {definition : Definition String} (h : definition.WellFormed)
    (place : Place) : ∃ read, readDefinition definition.print.toList = .ok read ∧
      read.mapSpan (Span.moveTo place) (Fenced.mapSpan (Span.moveTo place)) =
        definition.fenced place := exists_readDefinition_of_reads (reads_print h place)

/-! ## Both directions -/

/-- A text stands for the definition that is left of it when it is read, cleaned and accepted. -/
theorem parse_eq_ok_iff {text : String} {definition : Definition String} :
    parse text = .ok definition ↔ ∃ read, readDefinition text.toList = .ok read ∧
      read.clean = .ok definition ∧ NamesAccepted definition.impls := by
  have hnames : ∀ cleaned : Definition String,
      (checkNames cleaned.impls >>= fun _ => pure cleaned) = Except.ok definition ↔
        cleaned = definition ∧ NamesAccepted definition.impls := by
    intro cleaned
    rw [bind_eq_ok_iff]
    constructor
    · rintro ⟨_, hcheck, he⟩
      obtain rfl := Except.ok.inj he
      exact ⟨rfl, (checkNames_eq_ok_iff _).mp hcheck⟩
    · rintro ⟨rfl, hnames⟩
      exact ⟨(), (checkNames_eq_ok_iff _).mpr hnames, rfl⟩
  rw [parse, bind_eq_ok_iff]
  simp only [bind_eq_ok_iff, hnames]
  constructor
  · rintro ⟨read, hread, cleaned, hclean, rfl, hnames⟩
    exact ⟨read, hread, hclean, hnames⟩
  · rintro ⟨read, hread, hclean, hnames⟩
    exact ⟨read, hread, definition, hclean, rfl, hnames⟩

/-- A printed definition is read as itself, spans aside. -/
theorem exists_parse_print {definition : Definition String} (h : definition.WellFormed) :
    ∃ read, parse definition.print = .ok read ∧ read.erase = definition.erase := by
  obtain ⟨raw, hraw, hfenced⟩ := exists_readDefinition_print h .start
  have hclean := Definition.clean_fenced h .start
  rw [← hfenced] at hclean
  obtain ⟨read, hread, hspans⟩ := Definition.exists_clean_of_mapSpan hclean
  have himpls := congrArg Definition.impls hspans
  have hnames : NamesAccepted read.impls := (namesAccepted_iff_of_mapSpan_eq himpls).mpr h.names
  exact ⟨read, parse_eq_ok_iff.mpr ⟨raw, hraw, hread, hnames⟩,
    Definition.erase_eq_of_mapSpan_eq _ hspans⟩

/-- Whatever a text stands for can be printed. -/
theorem wellFormed_of_parse {text : String} {definition : Definition String}
    (h : parse text = .ok definition) : definition.WellFormed := by
  obtain ⟨read, hread, hclean, hnames⟩ := parse_eq_ok_iff.mp h
  obtain ⟨himports, himpls⟩ := sound_of_readDefinition hread
  obtain ⟨impls, hall, rfl⟩ := map_eq_ok_iff.mp hclean
  refine ⟨himports, fun impl hmem => ?_, hnames⟩
  obtain ⟨raw, hraw, hcleaned⟩ := exists_of_mem_mapM hall hmem
  exact (himpls raw hraw).of_clean hcleaned

/-- Reading undoes printing up to spans, and what is read is exactly what can be printed. -/
theorem parse_print :
    (∀ definition : Definition String, definition.WellFormed →
      ∃ read, parse definition.print = .ok read ∧ read.erase = definition.erase) ∧
    ∀ (text : String) (definition : Definition String),
      parse text = .ok definition → definition.WellFormed :=
  ⟨fun _ h => exists_parse_print h, fun _ _ h => wellFormed_of_parse h⟩

/-- A text with a keyword for a name, commas before closing marks and a body with a margin. -/
def crowdedText : String :=
  "from .. import x as y#\n@n @l(1, f(p,),)\nimpl A(B[c.T],)\x7brpc import(x: int,) -> s" ++
    "\x60\x60\x60\n a\n  b\n\x60\x60\x60\x7d"

/-- The definition that the text stands for. -/
def crowded : Definition String where
  imports := [⟨"from .. import x as y"⟩]
  impls := [{
    name := "A"
    bases := [⟨"B", [⟨"c.T", [], ⟨some 3, some 10⟩⟩], ⟨some 3, some 8⟩⟩]
    methods := [{
      name := "import"
      params := [⟨"x", some ⟨"int", [], ⟨some 3, some 31⟩⟩, ⟨some 3, some 28⟩⟩]
      result := some ⟨"s", [], ⟨some 3, some 40⟩⟩
      body := "a\n b"
      annotations := []
      span := ⟨some 3, some 21⟩ }]
    annotations := [⟨"n", none, ⟨some 2, some 1⟩⟩,
      ⟨"l", some [⟨.literal, "1", ⟨some 2, some 7⟩⟩, ⟨.call, "f(p)", ⟨some 2, some 10⟩⟩],
        ⟨some 2, some 4⟩⟩]
    span := ⟨some 2, some 1⟩ }]

theorem parse_crowdedText : parse crowdedText = .ok crowded := by
  have htext : crowdedText.toList = _ :=
    Text.toList_append_of_eq String.toList_ofList String.toList_ofList
  rw [parse, htext]
  decide +kernel

theorem parse_print_crowded :
    parse crowdedText = .ok crowded ∧ crowded.WellFormed ∧
      ∃ read, parse crowded.print = .ok read ∧ read.erase = crowded.erase :=
  have hformed : crowded.WellFormed := parse_print.2 crowdedText crowded parse_crowdedText
  ⟨parse_crowdedText, hformed, parse_print.1 crowded hformed⟩

end Interpose
