import Interpose.Proofs.Except
import Interpose.Record.Shape
import Mathlib.Data.List.Nodup
import Mathlib.Logic.Relation

/-!
# Records in normal form

A value in normal form has exactly the fields of its kind of record, in their order, and a field
that is not null has its shape. Bringing it to its shape changes nothing. Where places are taken
away from it, each of them comes back as nowhere; members that are no fields change nothing,
wherever they are added.
-/

namespace Interpose

/-! ## Places taken away -/

/-- A step from a record to a field, or from a list to an item. -/
inductive Step where
  /-- To the field of a name. -/
  | field (name : String)
  /-- To the item at an index. -/
  | item (index : Nat)
  deriving DecidableEq, Repr

/-- A choice of records, each named by the steps that lead to it. -/
abbrev Spots := List Step → Bool

namespace Spots

/-- The chosen records below a step. -/
def under (spots : Spots) (step : Step) : Spots := fun steps => spots (step :: steps)

end Spots

variable {τ : Type}

namespace Json

mutual

/-- A value without the places of the chosen records. -/
def thin (spots : Spots) : Json τ → Json τ
  | .obj members => .obj (thinMembers spots members)
  | .arr items => .arr (thinItems spots 0 items)
  | value => value

/-- The members of a record, without its place if the record is chosen. -/
def thinMembers (spots : Spots) : List (String × Json τ) → List (String × Json τ)
  | [] => []
  | (key, value) :: members =>
    if key = "span" ∧ spots [] = true then thinMembers spots members
    else (key, thin (spots.under (.field key)) value) :: thinMembers spots members

/-- The items of a list from an index on. -/
def thinItems (spots : Spots) (index : Nat) : List (Json τ) → List (Json τ)
  | [] => []
  | item :: items => thin (spots.under (.item index)) item :: thinItems spots (index + 1) items

end

mutual

/-- A value in which the places of the chosen records are nowhere. -/
def blank (spots : Spots) : Json τ → Json τ
  | .obj members => .obj (blankMembers spots members)
  | .arr items => .arr (blankItems spots 0 items)
  | value => value

/-- The members of a record, with its place nowhere if the record is chosen. -/
def blankMembers (spots : Spots) : List (String × Json τ) → List (String × Json τ)
  | [] => []
  | (key, value) :: members =>
    (key, if key = "span" ∧ spots [] = true then nowhere
      else blank (spots.under (.field key)) value) :: blankMembers spots members

/-- The items of a list from an index on. -/
def blankItems (spots : Spots) (index : Nat) : List (Json τ) → List (Json τ)
  | [] => []
  | item :: items => blank (spots.under (.item index)) item :: blankItems spots (index + 1) items

end

/-- A value is null without some of its places only if it is null. -/
theorem thin_eq_null_iff {spots : Spots} {value : Json τ} :
    value.thin spots = .null ↔ value = .null := by
  cases value <;> simp [thin]

mutual

/-- Where no record is chosen, nothing is taken away. -/
theorem thin_none : ∀ value : Json τ, value.thin (fun _ => false) = value
  | .null | .bool _ | .int _ | .str _ => by simp [thin]
  | .arr items => by rw [thin, thinItems_none]
  | .obj members => by rw [thin, thinMembers_none]

theorem thinMembers_none : ∀ members : List (String × Json τ),
    thinMembers (fun _ => false) members = members
  | [] => rfl
  | (key, value) :: members => by
    rw [thinMembers, if_neg (by simp), thinMembers_none members]
    exact congrArg (fun value => (key, value) :: members) (thin_none value)

theorem thinItems_none : ∀ (index : Nat) (items : List (Json τ)),
    thinItems (fun _ => false) index items = items
  | _, [] => rfl
  | index, item :: items => by
    rw [thinItems, thinItems_none (index + 1) items]
    exact congrArg (· :: items) (thin_none item)

end

mutual

/-- Where no record is chosen, every place is kept. -/
theorem blank_none : ∀ value : Json τ, value.blank (fun _ => false) = value
  | .null | .bool _ | .int _ | .str _ => by simp [blank]
  | .arr items => by rw [blank, blankItems_none]
  | .obj members => by rw [blank, blankMembers_none]

theorem blankMembers_none : ∀ members : List (String × Json τ),
    blankMembers (fun _ => false) members = members
  | [] => rfl
  | (key, value) :: members => by
    rw [blankMembers, if_neg (by simp), blankMembers_none members]
    exact congrArg (fun value => (key, value) :: members) (blank_none value)

theorem blankItems_none : ∀ (index : Nat) (items : List (Json τ)),
    blankItems (fun _ => false) index items = items
  | _, [] => rfl
  | index, item :: items => by
    rw [blankItems, blankItems_none (index + 1) items]
    exact congrArg (· :: items) (blank_none item)

end

end Json

open Json

/-! ## Normal forms -/

section

variable [Text.Spelled τ]

mutual

/-- A value in the normal form of a shape. -/
inductive Normal : Json τ → Shape → Prop where
  /-- A text. -/
  | text (given : τ) : Normal (.str given) .text
  /-- An integer. -/
  | number (given : Int) : Normal (.int given) .number
  /-- A name of the shape of an argument. -/
  | argumentKind {given : String} (h : given ∈ argumentKindNames) :
    Normal (.str (Text.Spelled.ofString given)) .argumentKind
  /-- The fields of a record in their order. -/
  | record {members : List (String × Json τ)} {kind : RecordKind}
    (h : NormalMembers members kind.fields) : Normal (.obj members) (.record kind)
  /-- Items of one shape. -/
  | list {items : List (Json τ)} {item : Shape} (h : ∀ value ∈ items, Normal value item) :
    Normal (.arr items) (.list item)

/-- Members that are fields, each null or in the normal form of the field's shape. -/
inductive NormalMembers : List (String × Json τ) → List Field → Prop where
  /-- No fields. -/
  | nil : NormalMembers [] []
  /-- A field that is null. -/
  | null {members : List (String × Json τ)} {fields : List Field} (field : Field)
    (rest : NormalMembers members fields) :
    NormalMembers ((field.name, .null) :: members) (field :: fields)
  /-- A field that holds what it should. -/
  | value {value : Json τ} {members : List (String × Json τ)} {field : Field} {fields : List Field}
    (first : Normal value field.shape) (rest : NormalMembers members fields) :
    NormalMembers ((field.name, value) :: members) (field :: fields)

end

theorem NormalMembers.map_fst : ∀ {members : List (String × Json τ)} {fields : List Field},
    NormalMembers members fields → members.map Prod.fst = fields.map Field.name
  | _, _, .nil => rfl
  | _, _, .null field rest => by rw [List.map_cons, List.map_cons, rest.map_fst]
  | _, _, .value _ rest => by rw [List.map_cons, List.map_cons, rest.map_fst]

/-- Null is in no normal form. -/
theorem Normal.ne_null {value : Json τ} {shape : Shape} (h : Normal value shape) :
    value ≠ .null := by
  rintro rfl
  cases h

end

/-- No two fields of a record have one name. -/
theorem RecordKind.nodup_names (kind : RecordKind) : (kind.fields.map Field.name).Nodup := by
  cases kind <;> decide +kernel

/-- What is named as a place is one. -/
theorem RecordKind.isPlace_span (kind : RecordKind) :
    ∀ field ∈ kind.fields, field.name = "span" → field.isPlace = true := by
  cases kind <;> decide +kernel

/-! ## Bringing a normal form to its shape -/

/-- A name that no member has stays without one. -/
theorem lookup_thinMembers_of_notMem (spots : Spots) {members : List (String × Json τ)}
    {key : String} (h : key ∉ members.map Prod.fst) :
    (thinMembers spots members).lookup key = none := by
  induction members with
  | nil => rfl
  | cons member members ih =>
    obtain ⟨name, value⟩ := member
    rw [List.map_cons, List.mem_cons, not_or] at h
    rw [thinMembers]
    split
    · exact ih h.2
    · rw [List.lookup_cons, beq_false_of_ne h.1]
      exact ih h.2

/-- What is left of a member when places are taken away. -/
theorem lookup_thinMembers (spots : Spots) {members : List (String × Json τ)}
    (hnodup : (members.map Prod.fst).Nodup) {key : String} {value : Json τ}
    (h : (key, value) ∈ members) :
    (thinMembers spots members).lookup key =
      if key = "span" ∧ spots [] = true then none
      else some (value.thin (spots.under (.field key))) := by
  induction members with
  | nil => cases h
  | cons member members ih =>
    obtain ⟨name, other⟩ := member
    rw [List.map_cons, List.nodup_cons] at hnodup
    rw [thinMembers]
    obtain heq | hmem := List.mem_cons.mp h
    · obtain ⟨rfl, rfl⟩ := Prod.mk.inj heq
      split
      · exact lookup_thinMembers_of_notMem spots hnodup.1
      · rw [List.lookup_cons_self]
    · have hne : key ≠ name := by
        rintro rfl
        exact hnodup.1 (List.mem_map.mpr ⟨_, hmem, rfl⟩)
      split
      · rename_i hspan
        rw [ih hnodup.2 hmem]
      · rw [List.lookup_cons, beq_false_of_ne hne]
        exact ih hnodup.2 hmem

/-- A field whose member is brought to its shape stands before the other fields. -/
theorem Readings.collect_read {readings : Readings τ} {field : Field} {fields : List Field}
    {read : Shape → Except (RecordFault τ) (Json τ)} {value : Json τ}
    {members : List (String × Json τ)} (hlook : readings.lookup field.name = some read)
    (hread : read field.shape = .ok value) (hrest : readings.collect fields = .ok members) :
    readings.collect (field :: fields) = .ok ((field.name, value) :: members) := by
  rw [Readings.collect] at hrest ⊢
  rw [List.mapM_cons, hrest]
  simp only [hlook, hread]
  rfl

/-- A place that is missing is nowhere. -/
theorem Readings.collect_missing {readings : Readings τ} {field : Field} {fields : List Field}
    {members : List (String × Json τ)} (hlook : readings.lookup field.name = none)
    (hplace : field.isPlace = true) (hrest : readings.collect fields = .ok members) :
    readings.collect (field :: fields) = .ok ((field.name, nowhere) :: members) := by
  rw [Readings.collect] at hrest ⊢
  rw [List.mapM_cons, hrest]
  simp only [hlook, hplace]
  rfl

section

variable [Text.Spelled τ] [DecidableEq τ]

/-- The items of a list are brought to their shape one by one. -/
theorem ofItems_thinItems {items : List (Json τ)} {shape : Shape}
    (h : ∀ value ∈ items, ∀ spots : Spots,
      Shape.ofJson (value.thin spots) shape = .ok (value.blank spots))
    (spots : Spots) (index : Nat) :
    Shape.ofItems (thinItems spots index items) shape = .ok (blankItems spots index items) := by
  induction items generalizing index with
  | nil => rfl
  | cons item items ih =>
    have hrest := ih (fun value hmem => h value (List.mem_cons_of_mem _ hmem)) (index + 1)
    rw [thinItems, Shape.ofItems, h item List.mem_cons_self, hrest]
    rfl

/-- A member of which something is left, or the place of a chosen record. -/
theorem Readings.collect_thin {spots : Spots} {readings : Readings τ} {field : Field}
    {fields : List Field} {value : Json τ} {members : List (String × Json τ)}
    (hplace : field.name = "span" → field.isPlace = true)
    (hlook : readings.lookup field.name = if field.name = "span" ∧ spots [] = true then none
      else some (Shape.ofField (value.thin (spots.under (.field field.name)))))
    (hread : Shape.ofField (value.thin (spots.under (.field field.name))) field.shape =
      .ok (value.blank (spots.under (.field field.name))))
    (hrest : readings.collect fields = .ok (blankMembers spots members)) :
    readings.collect (field :: fields) =
      .ok (blankMembers spots ((field.name, value) :: members)) := by
  rw [blankMembers]
  by_cases hgone : field.name = "span" ∧ spots [] = true
  · rw [if_pos hgone] at hlook ⊢
    exact collect_missing hlook (hplace hgone.1) hrest
  · rw [if_neg hgone] at hlook ⊢
    exact collect_read hlook hread hrest

theorem Shape.ofField_of_ne_null {value : Json τ} (h : value ≠ .null) (shape : Shape) :
    Shape.ofField value shape = Shape.ofJson value shape := if_neg h

mutual

/-- Without some of its places, a normal form is brought to the same with these places nowhere. -/
theorem Normal.ofJson_thin : ∀ {value : Json τ} {shape : Shape}, Normal value shape →
    ∀ spots : Spots, Shape.ofJson (value.thin spots) shape = .ok (value.blank spots)
  | _, _, .text given, spots => by
    simp [thin, blank, Shape.ofJson_str, Shape.ofText]
  | _, _, .number given, spots => by
    simp [thin, blank, Shape.ofJson, Shape.ofValue]
  | _, _, @Normal.argumentKind _ _ given h, spots => by
    have hgiven : (Text.Spelled.ofString given : τ) ∈
        argumentKindNames.map Text.Spelled.ofString := List.mem_map_of_mem h
    simp only [thin, blank, Shape.ofJson_str, Shape.ofText, if_pos hgiven]
  | _, _, @Normal.record _ _ members kind h, spots => by
    have hnodup : (members.map Prod.fst).Nodup := h.map_fst ▸ kind.nodup_names
    have hcollect := h.collect_thin spots (Shape.readings (thinMembers spots members))
      kind.isPlace_span fun key value hmem => by
        rw [Shape.lookup_readings, lookup_thinMembers spots hnodup hmem]
        split <;> rfl
    rw [thin, blank, Shape.ofJson_obj, hcollect]
    rfl
  | _, _, .list h, spots => by
    rw [thin, blank, Shape.ofJson_arr,
      ofItems_thinItems (fun value hmem => (h value hmem).ofJson_thin) spots 0]
    rfl

/-- The members of a normal form are collected from what is left of them. -/
theorem NormalMembers.collect_thin : ∀ {members : List (String × Json τ)} {fields : List Field},
    NormalMembers members fields → ∀ (spots : Spots) (readings : Readings τ),
    (∀ field ∈ fields, field.name = "span" → field.isPlace = true) →
    (∀ key value, (key, value) ∈ members → readings.lookup key =
      if key = "span" ∧ spots [] = true then none
      else some (Shape.ofField (value.thin (spots.under (.field key))))) →
    readings.collect fields = .ok (blankMembers spots members)
  | _, _, .nil, spots, readings, hplace, hlook => rfl
  | _, _, .null field rest, spots, readings, hplace, hlook => by
    have hrest := rest.collect_thin spots readings
      (fun other hmem => hplace other (List.mem_cons_of_mem _ hmem))
      (fun key value hmem => hlook key value (List.mem_cons_of_mem _ hmem))
    have hfirst := hlook field.name .null List.mem_cons_self
    exact Readings.collect_thin (hplace field List.mem_cons_self) hfirst rfl hrest
  | _, _, @NormalMembers.value _ _ value _ field _ first rest, spots, readings, hplace, hlook => by
    have hrest := rest.collect_thin spots readings
      (fun other hmem => hplace other (List.mem_cons_of_mem _ hmem))
      (fun key value hmem => hlook key value (List.mem_cons_of_mem _ hmem))
    have hfirst := hlook field.name value List.mem_cons_self
    have hne : value.thin (spots.under (.field field.name)) ≠ .null :=
      fun hnull => first.ne_null (thin_eq_null_iff.mp hnull)
    have hread := first.ofJson_thin (spots.under (.field field.name))
    rw [← Shape.ofField_of_ne_null hne] at hread
    exact Readings.collect_thin (hplace field List.mem_cons_self) hfirst hread hrest

end

end

/-! ## Members that are no fields -/

/-- A record, or a part of it, gets a member that is no field of the record it is added to. -/
inductive AddsMember : Shape → Json τ → Json τ → Prop where
  /-- The member is added to this record. -/
  | here {kind : RecordKind} {key : String} (h : ∀ field ∈ kind.fields, field.name ≠ key)
    (front back : List (String × Json τ)) (value : Json τ) :
    AddsMember (.record kind) (.obj (front ++ back)) (.obj (front ++ (key, value) :: back))
  /-- The member is added inside a field. -/
  | field {kind : RecordKind} {field : Field} (hfield : field ∈ kind.fields) {before after : Json τ}
    (h : AddsMember field.shape before after) (front back : List (String × Json τ)) :
    AddsMember (.record kind) (.obj (front ++ (field.name, before) :: back))
      (.obj (front ++ (field.name, after) :: back))
  /-- The member is added inside an item. -/
  | item {shape : Shape} {before after : Json τ} (h : AddsMember shape before after)
    (front back : List (Json τ)) :
    AddsMember (.list shape) (.arr (front ++ before :: back)) (.arr (front ++ after :: back))

/-- What is collected depends on the look-ups of the fields alone. -/
theorem Readings.collect_congr {readings others : Readings τ} {fields : List Field}
    (h : ∀ field ∈ fields,
      (readings.lookup field.name).map (fun read => read field.shape) =
        (others.lookup field.name).map (fun read => read field.shape)) :
    readings.collect fields = others.collect fields := by
  induction fields with
  | nil => rfl
  | cons field fields ih =>
    have hrest := ih fun other hmem => h other (List.mem_cons_of_mem _ hmem)
    have hfirst := h field List.mem_cons_self
    rw [Readings.collect] at hrest ⊢
    rw [Readings.collect] at hrest ⊢
    rw [List.mapM_cons, List.mapM_cons, hrest]
    cases hone : readings.lookup field.name <;> cases htwo : others.lookup field.name <;>
      simp_all

/-- Two fields of a record that have one name are one field. -/
theorem RecordKind.field_eq {kind : RecordKind} {field other : Field} (h : field ∈ kind.fields)
    (hother : other ∈ kind.fields) (hname : field.name = other.name) : field = other :=
  List.inj_on_of_nodup_map kind.nodup_names h hother hname

/-- Only a list or a record gets a member. -/
theorem AddsMember.ne_null {shape : Shape} {before after : Json τ}
    (h : AddsMember shape before after) : before ≠ .null ∧ after ≠ .null := by
  cases h <;> exact ⟨nofun, nofun⟩

section

variable [Text.Spelled τ] [DecidableEq τ]

/-- A member that is no field changes nothing. -/
theorem AddsMember.ofJson_eq {shape : Shape} {before after : Json τ}
    (h : AddsMember shape before after) : Shape.ofJson after shape = Shape.ofJson before shape := by
  induction h with
  | here h front back value =>
    rw [Shape.ofJson_obj, Shape.ofJson_obj, Readings.collect_congr]
    intro field hfield
    rw [Shape.lookup_readings, Shape.lookup_readings, List.lookup_append, List.lookup_append,
      List.lookup_cons, beq_false_of_ne (h field hfield)]
  | @field kind field hfield before after h front back ih =>
    rw [Shape.ofJson_obj, Shape.ofJson_obj, Readings.collect_congr]
    intro other hother
    rw [Shape.lookup_readings, Shape.lookup_readings, List.lookup_append, List.lookup_append,
      List.lookup_cons, List.lookup_cons]
    by_cases hname : other.name = field.name
    · obtain rfl := RecordKind.field_eq hother hfield hname
      rw [beq_self_eq_true]
      cases front.lookup other.name with
      | some first => rfl
      | none =>
        simp [Shape.ofField_of_ne_null h.ne_null.1, Shape.ofField_of_ne_null h.ne_null.2, ih]
    · rw [beq_false_of_ne hname]
  | item h front back ih =>
    rw [Shape.ofJson_arr, Shape.ofJson_arr, Shape.ofItems_eq_mapM, Shape.ofItems_eq_mapM,
      List.mapM_append, List.mapM_append, List.mapM_cons, List.mapM_cons, ih]

/-- Members that are no fields change nothing, however many there are. -/
theorem ofJson_eq_of_adds {shape : Shape} {before after : Json τ}
    (h : Relation.ReflTransGen (AddsMember shape) before after) :
    Shape.ofJson after shape = Shape.ofJson before shape := by
  induction h with
  | refl => rfl
  | tail _ hstep ih => rw [hstep.ofJson_eq, ih]

end

end Interpose
