import ContractBench.Argument.Call
import ContractBench.Proofs.Argument.TypeReading

/-! # Raw texts and strings

A typed value and a type that are not broken are read as their strings are.
-/

namespace ContractBench.Argument

theorem isEmpty_trimmed_iff {s : String} :
    (RawText.ofString s).trimmed.isEmpty = true ↔ Text.trim s.toList = [] := by
  rw [RawText.trimmed_ofString, RawText.isEmpty_ofString, Text.toList_stripped, List.isEmpty_iff]

theorem rawScalar?_ofString (base s : String) : rawScalar? base s = scalar? base s.toList := by
  simp only [rawScalar?, scalar?, isEmpty_trimmed_iff]
  split
  next => rfl
  next =>
    rw [RawText.trimmed_ofString, RawText.replaced_ofString, Value.ofRaw_ofString]
    rfl

theorem mapM_rawScalar? (base : String) (pieces : List (List Char)) :
    (pieces.map fun piece => RawText.ofString (String.ofList piece)).mapM (rawScalar? base) =
      scalars? base pieces := by
  induction pieces with
  | nil => rfl
  | cons piece pieces ih =>
      rw [List.map_cons, List.mapM_cons, ih, rawScalar?_ofString, String.toList_ofList, scalars?]

theorem rawElements_ofString (type base s : String) :
    rawElements type base s = elements type base s.toList := by
  have hscalars : ((s : RawText).pieces ',').mapM (rawScalar? base) =
      scalars? base (Text.pieces ',' s.toList) := by
    rw [RawText.pieces_ofString, mapM_rawScalar?]
  cases hread : scalars? base (Text.pieces ',' s.toList) with
  | none => simp only [rawElements, elements, hscalars, hread, String.ofList_toList]
  | some xs => simp only [rawElements, elements, hscalars, hread]

theorem readRawAs_ofString {type : String} {way : ArgumentType}
    (hway : ArgumentType.ofText type = .ok way) (s : String) :
    readRawAs type way s = readAs type way s.toList := by
  cases way with
  | scalar name => rw [readRawAs, rawScalar?_ofString, readAs]
  | array base => rw [readRawAs, rawElements_ofString, readAs]
  | fixedArray base length => rw [readRawAs, rawElements_ofString, readAs]
  | tuple name => rw [readRawAs, RawText.numbers_ofString, readAs, String.ofList_toList, Json.read]
  | nested name =>
      have hname : name = Text.stripped type := by
        have htells := ArgumentType.tells_ofChars (Text.trim type.toList)
        rw [show ArgumentType.ofChars (Text.trim type.toList) = .ok (.nested name) from hway]
          at htells
        cases htells
        rfl
      rw [readRawAs, RawText.numbers_ofString, readAs, String.ofList_toList, Json.read,
        RawText.trimmed_ofString, hname]

/-- Texts that are not broken are read as strings. -/
theorem readRaw_ofString (value type : String) : readRaw value type = read value type := by
  rw [readRaw, read, RawText.replaced_ofString]
  simp only [isEmpty_trimmed_iff]
  split
  next => rfl
  next =>
    cases hway : ArgumentType.ofText type with
    | error fault => simp only [orFail, bind, Except.bind]
    | ok way =>
        have hread := readRawAs_ofString hway (Text.stripped value)
        rw [Text.toList_stripped, ← RawText.trimmed_ofString] at hread
        simp only [orFail, bind, Except.bind, hread]

/-- A value that is read does not depend on what its type is called in reports. -/
theorem readRawAs_of_ok {type : RawText} {way : ArgumentType} {text : RawText} {v : Value}
    (h : readRawAs type way text = .ok v) (other : RawText) :
    readRawAs other way text = .ok v := by
  have helements {base : String} {xs : List Value} (hxs : rawElements type base text = .ok xs) :
      rawElements other base text = .ok xs := by
    unfold rawElements at hxs ⊢
    split at hxs <;> first | exact hxs | cases hxs
  cases way with
  | scalar name => exact h
  | array base =>
      obtain ⟨xs, hxs, rfl⟩ := map_eq_ok_iff.mp h
      exact map_eq_ok_iff.mpr ⟨xs, helements hxs, rfl⟩
  | fixedArray base length =>
      obtain ⟨xs, hxs, hcount⟩ := bind_eq_ok_iff.mp h
      refine bind_eq_ok_iff.mpr ⟨xs, helements hxs, ?_⟩
      split at hcount
      next hlength => rwa [if_pos hlength]
      next => cases hcount
  | tuple name => exact h
  | nested name =>
      rw [readRawAs] at h ⊢
      cases hjson : Json.readPoints text.numbers with
      | ok found => rwa [hjson] at h
      | error e =>
          rw [hjson] at h
          cases h

/-- An argument of a broken type is one of the type in which halves are replaced. -/
theorem readRaw_replaced_of_ok {value type : RawText} {argument : Option Value}
    (h : readRaw value type = .ok argument) : readRaw value type.replaced = .ok argument := by
  rw [readRaw] at h ⊢
  rw [RawText.replaced_ofString]
  split
  next hblank => rwa [if_pos hblank] at h
  next hblank =>
    rw [if_neg hblank] at h
    obtain ⟨way, hway, h⟩ := bind_eq_ok_iff.mp h
    obtain ⟨v, hv, h⟩ := bind_eq_ok_iff.mp h
    exact bind_eq_ok_iff.mpr ⟨way, hway, bind_eq_ok_iff.mpr ⟨v, readRawAs_of_ok hv _, h⟩⟩

/-- A blank text is none of any type. -/
theorem readText_eq_readRaw {type : Value} {text : RawText} (htype : type.raw? = some text)
    (value : RawText) : readText value type = readRaw value text := by
  rw [readText, typeText, htype]
  split
  next hblank => simp only [readRaw, hblank, if_true]
  next => rfl

/-- A typed string is read as an argument of a type that is a string. -/
theorem readValue_text (value type : String) :
    readValue (.text value) (.text type) = read value type :=
  (readText_eq_readRaw rfl value).trans (readRaw_ofString value type)

end ContractBench.Argument
