import ContractBench.Text.Blank
import ContractBench.Text.Pieces
import ContractBench.Text.Points

/-! # Raw texts

Texts as JSON can write them: sequences of code points, in which halves of surrogate pairs may
stand alone. A text without such halves is a string. What a client or a compiler names, and what
failures tell, are raw texts; only where a text is encoded does it have to be a string.
-/

namespace ContractBench

/-- A code point: that of a character, or half of a surrogate pair. -/
abbrev CodePoint := Fin 0x110000

namespace CodePoint

theorem toNat_lt (c : Char) : c.toNat < 0x110000 := by
  have h := c.valid
  simp only [UInt32.isValidChar, Nat.isValidChar] at h
  change c.val.toNat < 0x110000
  omega

def ofChar (c : Char) : CodePoint := ⟨c.toNat, toNat_lt c⟩

theorem ofChar_inj {c d : Char} : ofChar c = ofChar d ↔ c = d := by
  refine ⟨fun h => ?_, fun h => h ▸ rfl⟩
  have hpoint : c.toNat = d.toNat := Fin.mk.inj h
  rw [← Text.charOf_toNat c, hpoint, Text.charOf_toNat]

instance : Coe Char CodePoint := ⟨ofChar⟩

def isBlank (p : CodePoint) : Bool := Text.isBlank (Text.charOf p)

@[simp] theorem isBlank_ofChar (c : Char) : isBlank (ofChar c) = Text.isBlank c :=
  congrArg Text.isBlank (Text.charOf_toNat c)

end CodePoint

/-- A text by its code points. -/
@[ext] structure RawText where
  points : List CodePoint
deriving DecidableEq, Repr

namespace RawText

def ofString (s : String) : RawText := ⟨s.toList.map CodePoint.ofChar⟩

instance : Coe String RawText := ⟨ofString⟩

instance : Append RawText := ⟨fun s t => ⟨s.points ++ t.points⟩⟩

/-- The numbers of the code points. -/
def numbers (t : RawText) : List Nat := t.points.map Fin.val

/-- The text of numbers of code points. -/
def ofNumbers (ns : List Nat) : RawText := ⟨ns.map (Fin.ofNat 0x110000)⟩

def isEmpty (t : RawText) : Bool := t.points.isEmpty

/-- The text in which halves are replaced. -/
def replaced (t : RawText) : String := Text.ofPoints t.numbers

/-- The string that a text is, unless it is broken. -/
def string? (t : RawText) : Option String :=
  if t.numbers.any Text.isHalf then none else some t.replaced

section Views

@[simp] theorem points_append (s t : RawText) : (s ++ t).points = s.points ++ t.points := rfl

theorem append_empty (t : RawText) : t ++ ofString "" = t := RawText.ext (List.append_nil _)

theorem append_right_inj {s t u : RawText} : s ++ t = s ++ u ↔ t = u := by
  simp [RawText.ext_iff]

@[simp] theorem points_ofString (s : String) :
    (ofString s).points = s.toList.map CodePoint.ofChar := rfl

theorem append_eq_empty_iff {s t : RawText} :
    s ++ t = ofString "" ↔ s = ofString "" ∧ t = ofString "" := by
  simp [RawText.ext_iff]

@[simp] theorem numbers_ofString (s : String) : (ofString s).numbers = Text.points s := by
  simp [numbers, ofString, Text.points, CodePoint.ofChar]

theorem ofNumbers_numbers (t : RawText) : ofNumbers t.numbers = t := by
  simp [ofNumbers, numbers, Function.comp_def]

theorem ofNumbers_points (s : String) : ofNumbers (Text.points s) = s := by
  rw [← numbers_ofString, ofNumbers_numbers]

@[simp] theorem isEmpty_ofString (s : String) : (ofString s).isEmpty = s.toList.isEmpty := by
  rw [isEmpty, points_ofString, List.isEmpty_map]

@[simp] theorem replaced_ofString (s : String) : (ofString s).replaced = s := by
  rw [replaced, numbers_ofString, Text.ofPoints_points]

@[simp] theorem string?_ofString (s : String) : (ofString s).string? = some s := by
  have hwhole : (Text.points s).any Text.isHalf = false := by
    simp [Text.points, Text.isHalf_toNat]
  rw [string?, numbers_ofString, hwhole, replaced_ofString]
  rfl

/-- Nothing is replaced in a text without halves. -/
theorem ofString_replaced {t : RawText} (hwhole : ∀ n ∈ t.numbers, Text.isHalf n = false) :
    ofString t.replaced = t := by
  have hpoints : Text.points t.replaced = t.numbers := by
    rw [replaced, Text.points, Text.ofPoints, String.toList_ofList, List.map_map]
    refine (List.map_congr_left fun n hn => ?_).trans (List.map_id _)
    obtain ⟨p, -, rfl⟩ := List.mem_map.mp hn
    exact Text.toNat_charOf p.isLt (hwhole _ hn)
  rw [← ofNumbers_points, hpoints, ofNumbers_numbers]

theorem string?_eq_some_iff {t : RawText} {s : String} : t.string? = some s ↔ t = s := by
  refine ⟨fun h => ?_, fun h => h ▸ string?_ofString s⟩
  unfold string? at h
  split at h
  next => cases h
  next hwhole =>
    rw [← Option.some.inj h]
    exact (ofString_replaced (by simpa using hwhole)).symm

@[simp] theorem ofString_inj {s t : String} : ofString s = ofString t ↔ s = t := by
  refine ⟨fun h => ?_, fun h => h ▸ rfl⟩
  have hstrings := congrArg string? h
  rwa [string?_ofString, string?_ofString, Option.some_inj] at hstrings

theorem ofString_append (s t : String) : ofString (s ++ t) = ofString s ++ ofString t := by
  ext1
  simp

end Views

section Parts

/-- The parts of a text between the occurrences of a separator. -/
def pieces (t : RawText) (separator : CodePoint) : List RawText :=
  (Text.pieces separator t.points).map mk

/-- Texts written one after the other with a separator between them. -/
def joined (separator : RawText) (parts : List RawText) : RawText :=
  ⟨separator.points.intercalate (parts.map points)⟩

def beginsWith (lead t : RawText) : Bool := lead.points.isPrefixOf t.points

/-- The text after a leading part, if it begins with it. -/
def after? (lead t : RawText) : Option RawText := (Text.afterPrefix? lead.points t.points).map mk

/-- Removes every occurrence of a non-empty part, from the left. -/
def erasing (part t : RawText) : RawText := ⟨Text.erasingAux part.points 0 t.points⟩

def trimmedStart (t : RawText) : RawText := ⟨t.points.dropWhile CodePoint.isBlank⟩

/-- A text without the blanks at its end. -/
def trimmedEnd (t : RawText) : RawText :=
  ⟨(t.points.reverse.dropWhile CodePoint.isBlank).reverse⟩

/-- A text without the blanks at its ends. -/
def trimmed (t : RawText) : RawText := t.trimmedStart.trimmedEnd

theorem trimmedStart_ofString (s : String) :
    (ofString s).trimmedStart = String.ofList (Text.trimStart s.toList) := by
  ext1
  simp [trimmedStart, Text.trimStart, List.dropWhile_map, Function.comp_def]

theorem trimmedEnd_ofString (s : String) : (ofString s).trimmedEnd = Text.strippedEnd s := by
  ext1
  simp [trimmedEnd, Text.strippedEnd, Text.trimEnd, Text.trimStart, ← List.map_reverse,
    List.dropWhile_map, Function.comp_def]

theorem trimmed_ofString (s : String) : (ofString s).trimmed = Text.stripped s := by
  rw [trimmed, trimmedStart_ofString, trimmedEnd_ofString, Text.strippedEnd, String.toList_ofList]
  rfl

theorem pieces_ofString (separator : Char) (s : String) :
    (ofString s).pieces separator =
      (Text.pieces separator s.toList).map fun piece => ofString (String.ofList piece) := by
  rw [pieces, points_ofString, Text.pieces_map fun _ => CodePoint.ofChar_inj, List.map_map]
  refine List.map_congr_left fun piece _ => ?_
  ext1
  simp

theorem joined_ofString (separator : String) (parts : List String) :
    joined separator (parts.map ofString) = Text.joined separator parts := by
  ext1
  rw [points_ofString, Text.joined, String.toList_intercalate]
  simp only [joined, List.map_map, points_ofString]
  induction parts with
  | nil => rfl
  | cons part parts ih =>
      cases parts with
      | nil => simp [List.intercalate]
      | cons next parts => simpa [List.intercalate_cons_cons] using ih

theorem beginsWith_iff {lead t : RawText} :
    beginsWith lead t = true ↔ ∃ rest, lead ++ rest = t := by
  rw [beginsWith, List.isPrefixOf_iff_prefix]
  constructor
  · rintro ⟨rest, h⟩
    exact ⟨⟨rest⟩, RawText.ext h⟩
  · rintro ⟨rest, rfl⟩
    exact List.prefix_append _ _

theorem beginsWith_append (lead rest : RawText) : beginsWith lead (lead ++ rest) = true :=
  beginsWith_iff.mpr ⟨rest, rfl⟩

theorem after?_append (lead rest : RawText) : after? lead (lead ++ rest) = some rest := by
  simp [after?, Text.afterPrefix?_append]

theorem eq_append_of_after? {lead t rest : RawText} (h : after? lead t = some rest) :
    t = lead ++ rest := by
  obtain ⟨points, hpoints, rfl⟩ := Option.map_eq_some_iff.mp h
  exact RawText.ext (Text.eq_append_of_afterPrefix? hpoints)

end Parts

end RawText

end ContractBench
