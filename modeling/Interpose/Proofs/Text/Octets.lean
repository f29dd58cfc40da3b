import Interpose.Text.Octets
import Interpose.Proofs.Except
import Mathlib.Data.List.Basic

/-!
# Reading octets undoes writing them

Octets are read as a text exactly when they are the octets of that text. The character that an
octet begins goes on with as many octets as it needs, and together they are the octets of the
character that they are read as.
-/

namespace Interpose.Text

/-! ## Characters of several octets -/

/-- The octets with which an open character goes on, and the code point that it then has. -/
inductive OpenChar.Ends : OpenChar → List UInt8 → Nat → Prop where
  /-- The next octet is the last one. -/
  | last {char : OpenChar} {b : UInt8} (hmore : char.more = 0)
    (hin : char.low ≤ b.toNat ∧ b.toNat ≤ char.high) :
    Ends char [b] (char.bits * 0x40 + (b.toNat - 0x80))
  /-- Others follow the next octet. -/
  | next {char : OpenChar} {b : UInt8} {more : Nat} {octets : List UInt8} {code : Nat}
    (hmore : char.more = more + 1) (hin : char.low ≤ b.toNat ∧ b.toNat ≤ char.high)
    (rest : Ends { char with
      bits := char.bits * 0x40 + (b.toNat - 0x80), more := more, low := 0x80, high := 0xBF }
      octets code) :
    Ends char (b :: octets) code

theorem OpenChar.ends_zero_iff {octet first bits low high code : Nat} {octets : List UInt8} :
    OpenChar.Ends ⟨octet, first, bits, 0, low, high⟩ octets code ↔
      ∃ b, octets = [b] ∧ (low ≤ b.toNat ∧ b.toNat ≤ high) ∧
        code = bits * 0x40 + (b.toNat - 0x80) := by
  constructor
  · intro h
    cases h with
    | last _ hin => exact ⟨_, rfl, hin, rfl⟩
    | next hmore => cases hmore
  · rintro ⟨b, rfl, hin, hcode⟩
    rw [hcode]
    exact @OpenChar.Ends.last ⟨octet, first, bits, 0, low, high⟩ b rfl hin

theorem OpenChar.ends_succ_iff {octet first bits more low high code : Nat} {octets : List UInt8} :
    OpenChar.Ends ⟨octet, first, bits, more + 1, low, high⟩ octets code ↔
      ∃ b rest, octets = b :: rest ∧ (low ≤ b.toNat ∧ b.toNat ≤ high) ∧
        OpenChar.Ends ⟨octet, first, bits * 0x40 + (b.toNat - 0x80), more, 0x80, 0xBF⟩ rest
          code := by
  constructor
  · intro h
    cases h with
    | last hmore => cases hmore
    | next hmore hin hrest =>
      obtain rfl := Nat.succ.inj hmore
      exact ⟨_, _, rfl, hin, hrest⟩
  · rintro ⟨b, rest, rfl, hin, hrest⟩
    exact .next rfl hin hrest

/-- A complete character is read before what follows it. -/
theorem OpenChar.Ends.decodeFrom {char : OpenChar} {octets : List UInt8} {code : Nat}
    (h : char.Ends octets code) (position : Nat) (rest : List UInt8) :
    ∃ next, decodeFrom position (some char) (octets ++ rest) =
      (decodeFrom next none rest).map (Char.ofNat code :: ·) := by
  induction h generalizing position with
  | last hmore hin =>
    refine ⟨position + 1, ?_⟩
    rw [List.singleton_append, Text.decodeFrom]
    simp only [if_pos hin, hmore]
  | next hmore hin _ ih =>
    obtain ⟨next, hnext⟩ := ih (position + 1)
    refine ⟨next, ?_⟩
    rw [List.cons_append, Text.decodeFrom]
    simp only [if_pos hin, hmore]
    exact hnext

/-- What is read inside a character is its end and what follows it. -/
theorem exists_ends_of_decodeFrom {octets : List UInt8} {position : Nat} {char : OpenChar}
    {cs : List Char} (h : decodeFrom position (some char) octets = .ok cs) :
    ∃ front rest code more next, octets = front ++ rest ∧ front ≠ [] ∧ char.Ends front code ∧
      cs = Char.ofNat code :: more ∧ decodeFrom next none rest = .ok more := by
  induction octets generalizing position char with
  | nil => cases h
  | cons b octets ih =>
    rw [decodeFrom] at h
    by_cases hin : char.low ≤ b.toNat ∧ b.toNat ≤ char.high
    · simp only [if_pos hin] at h
      cases hmore : char.more with
      | zero =>
        simp only [hmore] at h
        obtain ⟨more, hread, rfl⟩ := map_eq_ok_iff.mp h
        exact ⟨[b], octets, _, more, _, rfl, by simp, .last hmore hin, rfl, hread⟩
      | succ count =>
        simp only [hmore] at h
        obtain ⟨front, rest, code, more, next, rfl, -, hends, rfl, hread⟩ := ih h
        exact ⟨b :: front, rest, code, more, next, rfl, by simp, .next hmore hin hends, rfl, hread⟩
    · simp only [if_neg hin] at h
      cases h

/-- The octets that begin a character, with the bits that they hold and what may follow them. -/
theorem openChar?_two {e : Nat} (h : 2 ≤ e ∧ e < 0x20) (position : Nat) :
    openChar? position (e + 0xC0) = some ⟨e + 0xC0, position, e, 0, 0x80, 0xBF⟩ := by
  rw [openChar?, if_pos (by omega)]
  simp

theorem openChar?_three {e : Nat} (h : e < 0x10) (position : Nat) :
    openChar? position (e + 0xE0) = some ⟨e + 0xE0, position, e, 1,
      if e = 0 then 0xA0 else 0x80, if e = 0xD then 0x9F else 0xBF⟩ := by
  rw [openChar?, if_neg (by omega)]
  by_cases hzero : e = 0
  · rw [if_pos (by omega), if_pos hzero, if_neg (by omega), hzero]
  · rw [if_neg (by omega), if_neg hzero]
    by_cases hsurrogate : e = 0xD
    · rw [if_pos (by omega), if_pos hsurrogate, hsurrogate]
    · rw [if_neg (by omega), if_pos (by omega), if_neg hsurrogate]
      simp

theorem openChar?_four {e : Nat} (h : e < 5) (position : Nat) :
    openChar? position (e + 0xF0) = some ⟨e + 0xF0, position, e, 2,
      if e = 0 then 0x90 else 0x80, if e = 4 then 0x8F else 0xBF⟩ := by
  have hall : ∀ e < 5, e = 0 ∨ e = 1 ∨ e = 2 ∨ e = 3 ∨ e = 4 := by decide
  obtain rfl | rfl | rfl | rfl | rfl := hall e h <;> rfl

/-- No other octet begins a character of several octets. -/
theorem openChar?_cases {position octet : Nat} {char : OpenChar}
    (h : openChar? position octet = some char) :
    (∃ e, octet = e + 0xC0 ∧ 2 ≤ e ∧ e < 0x20) ∨ (∃ e, octet = e + 0xE0 ∧ e < 0x10) ∨
      ∃ e, octet = e + 0xF0 ∧ e < 5 := by
  have hrange : 0xC2 ≤ octet ∧ octet ≤ 0xF4 := by
    by_contra hout
    rw [openChar?] at h
    rw [if_neg (by omega), if_neg (by omega), if_neg (by omega), if_neg (by omega),
      if_neg (by omega), if_neg (by omega), if_neg (by omega)] at h
    cases h
  by_cases htwo : octet < 0xE0
  · exact .inl ⟨octet - 0xC0, by omega, by omega, by omega⟩
  · by_cases hthree : octet < 0xF0
    · exact .inr (.inl ⟨octet - 0xE0, by omega, by omega⟩)
    · exact .inr (.inr ⟨octet - 0xF0, by omega, by omega⟩)

/-- The octets of a character as numbers. -/
theorem map_toNat_utf8EncodeChar (c : Char) :
    (String.utf8EncodeChar c).map UInt8.toNat =
      if c.toNat < 0x80 then [c.toNat]
      else if c.toNat < 0x800 then [c.toNat / 0x40 + 0xC0, c.toNat % 0x40 + 0x80]
      else if c.toNat < 0x10000 then
        [c.toNat / 0x1000 + 0xE0, c.toNat / 0x40 % 0x40 + 0x80, c.toNat % 0x40 + 0x80]
      else
        [c.toNat / 0x40000 + 0xF0, c.toNat / 0x1000 % 0x40 + 0x80, c.toNat / 0x40 % 0x40 + 0x80,
          c.toNat % 0x40 + 0x80] := by
  have hvalid : c.toNat < 0xD800 ∨ 0xDFFF < c.toNat ∧ c.toNat < 0x110000 := c.valid
  have hcode : c.val.toNat = c.toNat := rfl
  simp only [String.utf8EncodeChar, hcode]
  by_cases hone : c.toNat < 0x80
  · rw [if_pos (by omega), if_pos hone]
    simp
    omega
  · rw [if_neg (by omega), if_neg hone]
    by_cases htwo : c.toNat < 0x800
    · rw [if_pos (by omega), if_pos htwo]
      simp
      omega
    · rw [if_neg (by omega), if_neg htwo]
      by_cases hthree : c.toNat < 0x10000
      · rw [if_pos (by omega), if_pos hthree]
        simp
        omega
      · rw [if_neg (by omega), if_neg hthree]
        simp
        omega

/-- Every code point that is no surrogate is that of a character. -/
theorem exists_toNat_eq {code : Nat} (h : code < 0xD800 ∨ 0xDFFF < code ∧ code < 0x110000) :
    ∃ c : Char, c.toNat = code :=
  ⟨Char.ofNatAux code h, rfl⟩

/-- Octets are those of a character if they are so as numbers. -/
theorem utf8EncodeChar_eq_of_map {c : Char} {octets : List UInt8}
    (h : (String.utf8EncodeChar c).map UInt8.toNat = octets.map UInt8.toNat) :
    String.utf8EncodeChar c = octets :=
  List.map_injective_iff.mpr (fun _ _ => UInt8.toNat_inj.mp) h

/-- A complete character has its code point's octets. -/
theorem OpenChar.Ends.exists_char {b : UInt8} {octets : List UInt8} {code position : Nat}
    {char : OpenChar} (hopen : openChar? position b.toNat = some char)
    (hends : char.Ends octets code) :
    ∃ c : Char, c.toNat = code ∧ String.utf8EncodeChar c = b :: octets := by
  obtain ⟨e, hb, he⟩ | ⟨e, hb, he⟩ | ⟨e, hb, he⟩ := openChar?_cases hopen
  · rw [hb, openChar?_two he] at hopen
    obtain rfl := Option.some.inj hopen
    obtain ⟨b₁, rfl, hin, hcode⟩ := ends_zero_iff.mp hends
    rw [hcode]
    obtain ⟨c, hc⟩ := @exists_toNat_eq (e * 0x40 + (b₁.toNat - 0x80)) (by omega)
    refine ⟨c, hc, utf8EncodeChar_eq_of_map ?_⟩
    rw [map_toNat_utf8EncodeChar, hc, if_neg (by omega), if_pos (by omega)]
    simp only [List.map_cons, List.map_nil, List.cons.injEq, and_true]
    omega
  · rw [hb, openChar?_three he] at hopen
    obtain rfl := Option.some.inj hopen
    obtain ⟨b₁, rest, rfl, hin, hrest⟩ := ends_succ_iff.mp hends
    obtain ⟨b₂, rfl, hlast, hcode⟩ := ends_zero_iff.mp hrest
    rw [hcode]
    have hbits : 0x80 ≤ b₁.toNat ∧ b₁.toNat ≤ 0xBF ∧ (e = 0 → 0xA0 ≤ b₁.toNat) ∧
        (e = 0xD → b₁.toNat ≤ 0x9F) := by
      split at hin <;> split at hin <;> omega
    obtain ⟨c, hc⟩ := @exists_toNat_eq
      ((e * 0x40 + (b₁.toNat - 0x80)) * 0x40 + (b₂.toNat - 0x80)) (by omega)
    refine ⟨c, hc, utf8EncodeChar_eq_of_map ?_⟩
    rw [map_toNat_utf8EncodeChar, hc, if_neg (by omega), if_neg (by omega), if_pos (by omega)]
    simp only [List.map_cons, List.map_nil, List.cons.injEq, and_true]
    omega
  · rw [hb, openChar?_four he] at hopen
    obtain rfl := Option.some.inj hopen
    obtain ⟨b₁, rest, rfl, hin, hrest⟩ := ends_succ_iff.mp hends
    obtain ⟨b₂, rest, rfl, hnext, hrest⟩ := ends_succ_iff.mp hrest
    obtain ⟨b₃, rfl, hlast, hcode⟩ := ends_zero_iff.mp hrest
    rw [hcode]
    have hbits : 0x80 ≤ b₁.toNat ∧ b₁.toNat ≤ 0xBF ∧ (e = 0 → 0x90 ≤ b₁.toNat) ∧
        (e = 4 → b₁.toNat ≤ 0x8F) := by
      split at hin <;> split at hin <;> omega
    obtain ⟨c, hc⟩ := @exists_toNat_eq
      (((e * 0x40 + (b₁.toNat - 0x80)) * 0x40 + (b₂.toNat - 0x80)) * 0x40 + (b₃.toNat - 0x80))
      (by omega)
    refine ⟨c, hc, utf8EncodeChar_eq_of_map ?_⟩
    rw [map_toNat_utf8EncodeChar, hc, if_neg (by omega), if_neg (by omega), if_neg (by omega)]
    simp only [List.map_cons, List.map_nil, List.cons.injEq, and_true]
    omega

/-- The octets of a character above the ASCII range are complete. -/
theorem exists_ends_of_utf8EncodeChar {c : Char} (hascii : 0x80 ≤ c.toNat) (position : Nat) :
    ∃ b octets char, String.utf8EncodeChar c = b :: octets ∧ 0x80 ≤ b.toNat ∧
      openChar? position b.toNat = some char ∧ char.Ends octets c.toNat := by
  have hvalid : c.toNat < 0xD800 ∨ 0xDFFF < c.toNat ∧ c.toNat < 0x110000 := c.valid
  have hmap := map_toNat_utf8EncodeChar c
  rw [if_neg (by omega)] at hmap
  by_cases htwo : c.toNat < 0x800
  · rw [if_pos htwo] at hmap
    obtain ⟨b, octets, heq, hb, hrest⟩ := List.map_eq_cons_iff.mp hmap
    obtain ⟨b₁, octets, rfl, hb₁, hnil⟩ := List.map_eq_cons_iff.mp hrest
    obtain rfl := List.map_eq_nil_iff.mp hnil
    have hopen := @openChar?_two (c.toNat / 0x40) (by omega) position
    rw [← hb] at hopen
    refine ⟨b, [b₁], _, heq, by omega, hopen, ?_⟩
    exact OpenChar.ends_zero_iff.mpr ⟨b₁, rfl, by omega, by omega⟩
  · rw [if_neg htwo] at hmap
    by_cases hthree : c.toNat < 0x10000
    · rw [if_pos hthree] at hmap
      obtain ⟨b, octets, heq, hb, hrest⟩ := List.map_eq_cons_iff.mp hmap
      obtain ⟨b₁, octets, rfl, hb₁, hrest⟩ := List.map_eq_cons_iff.mp hrest
      obtain ⟨b₂, octets, rfl, hb₂, hnil⟩ := List.map_eq_cons_iff.mp hrest
      obtain rfl := List.map_eq_nil_iff.mp hnil
      have hopen := @openChar?_three (c.toNat / 0x1000) (by omega) position
      rw [← hb] at hopen
      refine ⟨b, [b₁, b₂], _, heq, by omega, hopen, ?_⟩
      refine OpenChar.ends_succ_iff.mpr ⟨b₁, [b₂], rfl, ?_,
        OpenChar.ends_zero_iff.mpr ⟨b₂, rfl, by omega, by omega⟩⟩
      split <;> split <;> omega
    · rw [if_neg hthree] at hmap
      obtain ⟨b, octets, heq, hb, hrest⟩ := List.map_eq_cons_iff.mp hmap
      obtain ⟨b₁, octets, rfl, hb₁, hrest⟩ := List.map_eq_cons_iff.mp hrest
      obtain ⟨b₂, octets, rfl, hb₂, hrest⟩ := List.map_eq_cons_iff.mp hrest
      obtain ⟨b₃, octets, rfl, hb₃, hnil⟩ := List.map_eq_cons_iff.mp hrest
      obtain rfl := List.map_eq_nil_iff.mp hnil
      have hopen := @openChar?_four (c.toNat / 0x40000) (by omega) position
      rw [← hb] at hopen
      refine ⟨b, [b₁, b₂, b₃], _, heq, by omega, hopen, ?_⟩
      refine OpenChar.ends_succ_iff.mpr ⟨b₁, [b₂, b₃], rfl, ?_,
        OpenChar.ends_succ_iff.mpr ⟨b₂, [b₃], rfl, by omega,
          OpenChar.ends_zero_iff.mpr ⟨b₃, rfl, by omega, by omega⟩⟩⟩
      split <;> split <;> omega

/-! ## Texts -/

/-- The octets of a character are read as that character. -/
theorem decodeFrom_utf8EncodeChar (c : Char) (position : Nat) (rest : List UInt8) :
    ∃ next, decodeFrom position none (String.utf8EncodeChar c ++ rest) =
      (decodeFrom next none rest).map (c :: ·) := by
  by_cases hascii : c.toNat < 0x80
  · have hmap := map_toNat_utf8EncodeChar c
    rw [if_pos hascii] at hmap
    obtain ⟨b, octets, heq, hb, hnil⟩ := List.map_eq_cons_iff.mp hmap
    obtain rfl := List.map_eq_nil_iff.mp hnil
    refine ⟨position + 1, ?_⟩
    rw [heq, List.singleton_append, decodeFrom]
    simp only [hb, if_pos hascii, Char.ofNat_toNat]
  · obtain ⟨b, octets, char, heq, hb, hopen, hends⟩ :=
      exists_ends_of_utf8EncodeChar (Nat.le_of_not_lt hascii) position
    obtain ⟨next, hnext⟩ := hends.decodeFrom (position + 1) rest
    refine ⟨next, ?_⟩
    rw [heq, List.cons_append, decodeFrom]
    simp only [if_neg (Nat.not_lt.mpr hb), hopen]
    rw [hnext, Char.ofNat_toNat]

/-- The octets of a text are read as that text. -/
theorem decodeFrom_flatMap (cs : List Char) (position : Nat) :
    decodeFrom position none (cs.flatMap String.utf8EncodeChar) = .ok cs := by
  induction cs generalizing position with
  | nil => rw [List.flatMap_nil, decodeFrom]
  | cons c cs ih =>
    obtain ⟨next, hnext⟩ :=
      decodeFrom_utf8EncodeChar c position (cs.flatMap String.utf8EncodeChar)
    rw [List.flatMap_cons, hnext, ih next]
    rfl

/-- Octets that are read as a text are the octets of that text. -/
theorem eq_flatMap_of_decodeFrom {octets : List UInt8} {position : Nat} {cs : List Char}
    (h : decodeFrom position none octets = .ok cs) :
    octets = cs.flatMap String.utf8EncodeChar := by
  -- By the number of octets, since the octets of one character go together.
  induction hlength : octets.length using Nat.strongRecOn
    generalizing octets position cs with
  | _ length ih =>
    cases octets with
    | nil =>
      rw [decodeFrom] at h
      obtain rfl := Except.ok.inj h
      rfl
    | cons b octets =>
      rw [decodeFrom] at h
      by_cases hascii : b.toNat < 0x80
      · simp only [if_pos hascii] at h
        obtain ⟨more, hread, rfl⟩ := map_eq_ok_iff.mp h
        have hmore := ih octets.length (by rw [← hlength]; exact Nat.lt_succ_self _) hread rfl
        obtain ⟨c, hc⟩ := @exists_toNat_eq b.toNat (by omega)
        have hfirst : String.utf8EncodeChar c = [b] := by
          apply utf8EncodeChar_eq_of_map
          rw [map_toNat_utf8EncodeChar, hc, if_pos hascii]
          rfl
        rw [← hc, Char.ofNat_toNat, List.flatMap_cons, hfirst, ← hmore, List.singleton_append]
      · simp only [if_neg hascii] at h
        cases hopen : openChar? position b.toNat with
        | none => simp [hopen] at h
        | some char =>
          simp only [hopen] at h
          obtain ⟨front, rest, code, more, next, rfl, -, hends, rfl, hread⟩ :=
            exists_ends_of_decodeFrom h
          obtain ⟨c, rfl, heq⟩ := hends.exists_char hopen
          have hshorter : rest.length < length := by
            rw [← hlength, List.length_cons, List.length_append]
            omega
          have hmore := ih rest.length hshorter hread rfl
          rw [List.flatMap_cons, Char.ofNat_toNat, heq, ← hmore, List.cons_append]

/-- Octets are read as a text exactly when they are the octets of that text. -/
theorem decodeOctets_eq_ok_iff {octets : List UInt8} {cs : List Char} :
    decodeOctets octets = .ok cs ↔ octets = encodeOctets (String.ofList cs) := by
  rw [decodeOctets, encodeOctets, String.toList_ofList]
  constructor
  · exact eq_flatMap_of_decodeFrom
  · rintro rfl
    exact decodeFrom_flatMap cs 0

/-- The octets of a text are read as the text. -/
theorem decodeOctets_encodeOctets (text : String) :
    decodeOctets (encodeOctets text) = .ok text.toList :=
  decodeOctets_eq_ok_iff.mpr (by rw [String.ofList_toList])

/-- Texts with the same octets are the same. -/
theorem encodeOctets_injective : Function.Injective encodeOctets := by
  intro text other h
  have hlist := decodeOctets_encodeOctets text
  rw [h, decodeOctets_encodeOctets] at hlist
  exact (String.toList_inj.mp (Except.ok.inj hlist)).symm

/-! ## Code points -/

/-- The octets of a string's code points are those of the string. -/
theorem encodePoints_points (text : String) :
    encodePoints (points text) = .ok (encodeOctets text) := by
  have hfrom : ∀ (cs : List Char) (position : Nat), encodeFrom position (cs.map .char) =
      .ok (cs.flatMap String.utf8EncodeChar) := by
    intro cs
    induction cs with
    | nil => exact fun _ => rfl
    | cons c cs ih =>
      intro position
      rw [List.map_cons, encodeFrom, ih]
      rfl
  exact hfrom text.toList 0

/-- There are no octets for code points with a surrogate among them. -/
theorem exists_encodePoints_eq_error {points : List CodePoint}
    (h : ∃ point ∈ points, point.isSurrogate) :
    ∃ fault, encodePoints points = .error fault := by
  have hfrom : ∀ (points : List CodePoint) (position : Nat), (∃ point ∈ points, point.isSurrogate) →
      ∃ fault, encodeFrom position points = .error fault := by
    intro points
    induction points with
    | nil => simp
    | cons point points ih =>
      intro position hmem
      cases point with
      | surrogate index => exact ⟨_, rfl⟩
      | char c =>
        have hrest : ∃ point ∈ points, point.isSurrogate := by
          simpa [CodePoint.isSurrogate] using hmem
        obtain ⟨fault, hfault⟩ := ih (position + 1) hrest
        exact ⟨fault, by rw [encodeFrom, hfault]; rfl⟩
  exact hfrom points 0 h

end Interpose.Text
