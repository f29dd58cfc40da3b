import Interpose.Proofs.Grammar.Basic

/-!
# Tokens that forms derive

`Expands` forgets the trees of a derivation: it relates forms to the tokens that derive from them.
What a first token says about the forms is read off by simplification: the lemmas here turn the
forms before a first token into the ways in which they can begin with it.
-/

namespace Interpose.Grammar

open Source

/-- The tokens that derive from forms. -/
inductive Expands : List Form → List Placed → Prop
  | nil : Expands [] []
  | terminal {terminal : Terminal} {placed : Placed} {forms : List Form} {tokens : List Placed}
      (htoken : terminal.Takes placed.token) (hrest : Expands forms tokens) :
      Expands (.terminal terminal :: forms) (placed :: tokens)
  | node {rules : List Rule} {rule : Rule} {alternative forms : List Form} {tokens : List Placed}
      (hrule : rule ∈ rules) (halternative : alternative ∈ rule.alternatives)
      (hrest : Expands (alternative ++ forms) tokens) : Expands (.node rules :: forms) tokens
  | skip {inner forms : List Form} {tokens : List Placed} (hrest : Expands forms tokens) :
      Expands (.optional inner :: forms) tokens
  | take {inner forms : List Form} {tokens : List Placed}
      (hrest : Expands (inner ++ forms) tokens) : Expands (.optional inner :: forms) tokens
  | stop {inner forms : List Form} {tokens : List Placed} (hrest : Expands forms tokens) :
      Expands (.repeated inner :: forms) tokens
  | again {inner forms : List Form} {tokens : List Placed}
      (hrest : Expands (inner ++ .repeated inner :: forms) tokens) :
      Expands (.repeated inner :: forms) tokens

/-- Trees that derive from forms may be followed by what derives from further forms. -/
theorem Derives.expands_append {forms more : List Form} {trees : List ParseTree}
    (h : Derives forms trees) {tokens : List Placed} (hmore : Expands more tokens) :
    Expands (forms ++ more) (yields trees ++ tokens) := by
  induction h generalizing more tokens with
  | nil => exact hmore
  | leaf htoken _ ih => exact .terminal htoken (ih hmore)
  | node hrule halternative _ _ ihchildren ih =>
    rw [yields_cons, yield_node, List.append_assoc]
    exact .node hrule halternative (ihchildren (ih hmore))
  | skip _ ih => exact .skip (ih hmore)
  | take _ ih =>
    have hinner := ih hmore
    rw [List.append_assoc] at hinner
    exact .take hinner
  | stop _ ih => exact .stop (ih hmore)
  | again _ ih =>
    have hinner := ih hmore
    rw [List.append_assoc] at hinner
    exact .again hinner

/-- The tokens of trees derive from what the trees derive from. -/
theorem Derives.expands {forms : List Form} {trees : List ParseTree} (h : Derives forms trees) :
    Expands forms (yields trees) := by
  have happend := h.expands_append .nil
  rwa [List.append_nil, List.append_nil] at happend

/-! ## Terminals -/

namespace Terminal

variable {token : Token}

theorem takes_word {keyword : Keyword} : (word keyword).Takes token ↔ token = .word keyword :=
  ⟨fun h => by cases h; rfl, fun h => h ▸ .word keyword⟩

theorem takes_mark {mark : Mark} : (Terminal.mark mark).Takes token ↔ token = .mark mark :=
  ⟨fun h => by cases h; rfl, fun h => h ▸ .mark mark⟩

theorem takes_name : name.Takes token ↔ ∃ text, token = .name text :=
  ⟨fun h => by cases h with | name text => exact ⟨text, rfl⟩, fun ⟨text, h⟩ => h ▸ .name text⟩

theorem takes_quoted : quoted.Takes token ↔ ∃ text, token = .quoted text :=
  ⟨fun h => by cases h with | quoted text => exact ⟨text, rfl⟩, fun ⟨text, h⟩ => h ▸ .quoted text⟩

theorem takes_number : number.Takes token ↔ ∃ text, token = .number text :=
  ⟨fun h => by cases h with | number text => exact ⟨text, rfl⟩, fun ⟨text, h⟩ => h ▸ .number text⟩

theorem takes_dots : dots.Takes token ↔ ∃ count, token = .dots count :=
  ⟨fun h => by cases h with | dots count => exact ⟨count, rfl⟩, fun ⟨count, h⟩ => h ▸ .dots count⟩

theorem takes_body : body.Takes token ↔ ∃ text, token = .body text :=
  ⟨fun h => by cases h with | body text => exact ⟨text, rfl⟩, fun ⟨text, h⟩ => h ▸ .body text⟩

end Terminal

/-! ## First tokens -/

namespace Expands

open Terminal

variable {forms inner : List Form} {form : Form} {tokens : List Placed} {token : Token}
  {place : Place}

/-- No token comes where nothing follows. -/
theorem nil_cons {placed : Placed} : ¬ Expands [] (placed :: tokens) := fun h => nomatch h

/-- A terminal that follows takes the first token. -/
theorem terminal_cons {terminal : Terminal} :
    Expands (.terminal terminal :: forms) (⟨token, place⟩ :: tokens) ↔
      terminal.Takes token ∧ Expands forms tokens :=
  ⟨fun h => by cases h with | terminal htoken hrest => exact ⟨htoken, hrest⟩,
    fun h => .terminal h.1 h.2⟩

/-- A node that follows is one of the alternatives of its rules. -/
theorem node_iff {rules : List Rule} : Expands (.node rules :: forms) tokens ↔
    ∃ rule ∈ rules, ∃ alternative ∈ rule.alternatives, Expands (alternative ++ forms) tokens :=
  ⟨fun h => by
    cases h with
    | node hrule halternative hrest => exact ⟨_, hrule, _, halternative, hrest⟩,
    fun ⟨_, hrule, _, halternative, hrest⟩ => .node hrule halternative hrest⟩

/-- What is optional follows or is left out. -/
theorem optional_iff : Expands (.optional inner :: forms) tokens ↔
    Expands (inner ++ forms) tokens ∨ Expands forms tokens :=
  ⟨fun h => by
    cases h with
    | skip hrest => exact .inr hrest
    | take hrest => exact .inl hrest,
    fun h => h.elim .take .skip⟩

/-- What is repeated follows once more or no more. -/
theorem repeated_iff : Expands (.repeated inner :: forms) tokens ↔
    Expands (inner ++ .repeated inner :: forms) tokens ∨ Expands forms tokens :=
  ⟨fun h => by
    cases h with
    | stop hrest => exact .inr hrest
    | again hrest => exact .inl hrest,
    fun h => h.elim .again .stop⟩

theorem mark_cons {mark : Mark} : Expands (.mark mark :: forms) (⟨token, place⟩ :: tokens) ↔
    token = .mark mark ∧ Expands forms tokens := terminal_cons.trans (and_congr_left' takes_mark)

theorem word_cons {keyword : Keyword} :
    Expands (.word keyword :: forms) (⟨token, place⟩ :: tokens) ↔
      token = .word keyword ∧ Expands forms tokens :=
  terminal_cons.trans (and_congr_left' takes_word)

theorem name_cons : Expands (.name :: forms) (⟨token, place⟩ :: tokens) ↔
    (∃ text, token = .name text) ∧ Expands forms tokens :=
  terminal_cons.trans (and_congr_left' takes_name)

/-- After a dotted name, a dot and another name follow or what comes after it does. -/
theorem points_cons : Expands (.points :: forms) (⟨token, place⟩ :: tokens) ↔
    (token = .mark .dot ∧ Expands (.name :: .points :: forms) tokens) ∨
      Expands forms (⟨token, place⟩ :: tokens) :=
  repeated_iff.trans (or_congr_left mark_cons)

/-- After an item, a comma and another one follow or what comes after the items does. -/
theorem further_cons : Expands (.further form :: forms) (⟨token, place⟩ :: tokens) ↔
    (token = .mark .comma ∧ Expands (form :: .further form :: forms) tokens) ∨
      Expands forms (⟨token, place⟩ :: tokens) :=
  repeated_iff.trans (or_congr_left mark_cons)

/-- After an item of a list, a comma or the end of the list follows. -/
theorem afterItem_cons : Expands (afterItem form forms) (⟨token, place⟩ :: tokens) ↔
    (token = .mark .comma ∧ Expands (.listed form :: .mark .closeParen :: forms) tokens) ∨
      (token = .mark .closeParen ∧ Expands forms tokens) := by
  have hlisted : Expands (.listed form :: .mark .closeParen :: forms) tokens ↔
      Expands (form :: afterItem form forms) tokens ∨
        Expands (.mark .closeParen :: forms) tokens := optional_iff
  have hlast : Expands (.optional [.mark .comma] :: .mark .closeParen :: forms)
      (⟨token, place⟩ :: tokens) ↔
      (token = .mark .comma ∧ Expands (.mark .closeParen :: forms) tokens) ∨
        (token = .mark .closeParen ∧ Expands forms tokens) :=
    optional_iff.trans (or_congr mark_cons mark_cons)
  rw [afterItem, further_cons, hlast, hlisted, and_or_left, or_assoc]
  rfl

/-- The rules of one alternative. -/
theorem node_singleton {rule : Rule} {alternative : List Form}
    (h : rule.alternatives = [alternative]) :
    Expands (.node [rule] :: forms) tokens ↔ Expands (alternative ++ forms) tokens := by
  simp [node_iff, h]

/-- A path begins with a name. -/
theorem path_cons : Expands (.node [.path] :: forms) (⟨token, place⟩ :: tokens) ↔
    (∃ text, token = .name text) ∧ Expands (.points :: forms) tokens :=
  (node_singleton rfl).trans name_cons

/-- A dotted name begins with a name. -/
theorem dottedName_cons : Expands (.node [.dottedName] :: forms) (⟨token, place⟩ :: tokens) ↔
    (∃ text, token = .name text) ∧ Expands (.points :: forms) tokens :=
  (node_singleton rfl).trans name_cons

/-- Forms from which nothing derives hold no terminal. -/
theorem terminal_notMem (h : Expands forms []) (terminal : Terminal) :
    .terminal terminal ∉ forms := by
  generalize hnone : ([] : List Placed) = none at h
  induction h with
  | nil => exact List.not_mem_nil
  | terminal htoken hrest ih => cases hnone
  | node hrule halternative hrest ih =>
    have hforms := fun hmem => ih hnone (List.mem_append_right _ hmem)
    simpa using hforms
  | skip hrest ih => simpa using ih hnone
  | take hrest ih =>
    have hforms := fun hmem => ih hnone (List.mem_append_right _ hmem)
    simpa using hforms
  | stop hrest ih => simpa using ih hnone
  | again hrest ih =>
    have hforms := fun hmem => ih hnone (List.mem_append_right _ (List.mem_cons_of_mem _ hmem))
    simpa using hforms

end Expands

end Interpose.Grammar
