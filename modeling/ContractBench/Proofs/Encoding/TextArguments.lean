import ContractBench.Encoding.Coercion
import ContractBench.Proofs.Json.Signs
import ContractBench.Proofs.Text.Trimming

/-! # Texts as arguments

How texts are brought into the form of parameters. Numbers, addresses and byte strings are judged
by their digits, so no text that opens a list, a table or a string of JSON is one. A text for an
array is read as JSON where it begins with a bracket, and is cut at commas elsewhere.
-/

namespace ContractBench.Encoding

/-- Whether the texts of a type are judged by their digits: numbers, addresses, byte strings. -/
def isJudgedByDigits (type : String) : Bool :=
  Text.beginsWith "uint" type || Text.beginsWith "int" type || type = "address" ||
    Text.beginsWith "bytes" type

/-- The signs with which lists, strings and tables open in JSON. -/
def openings : List Char := ['[', '"', '\x7b']

section Openings

variable {c : Char} {cs : List Char} {s : String}

theorem not_blank_of_opening (hc : c ∈ openings) : Text.isBlank c = false :=
  (by decide : ∀ c ∈ openings, Text.isBlank c = false) c hc

theorem exists_trim_of_opening (hc : c ∈ openings) (hs : s.toList = c :: cs) :
    ∃ ds, Text.trim s.toList = c :: ds := by
  rw [hs]
  exact Text.trim_of_not_blank (not_blank_of_opening hc) cs

theorem decimal?_of_opening (hc : c ∈ openings) (hs : s.toList = c :: cs) :
    Numeral.decimal? s = none := by
  obtain ⟨ds, hds⟩ := exists_trim_of_opening hc hs
  have hsigned : Numeral.signed (c :: ds) = (false, c :: ds) := by
    unfold Numeral.signed
    split
    next heq => cases heq; simp [openings] at hc
    next heq => cases heq; simp [openings] at hc
    next => rfl
  have hline : c ≠ '_' := (by decide : ∀ c ∈ openings, c ≠ '_') c hc
  have hdigit : Text.digitValue? c = none :=
    (by decide : ∀ c ∈ openings, Text.digitValue? c = none) c hc
  simp [Numeral.decimal?, hds, hsigned, Numeral.digits?, Numeral.digitsFrom, hline, hdigit]

/-- A number that is typed without blanks around it is read in the digits that its mark asks for. -/
theorem coerceNumber_of_trim (h : Text.trim s.toList = s.toList) :
    coerceNumber (.text s) =
      if Text.beginsWith "0x" (Text.lowered s) then (Numeral.hexadecimal? s).map .int
      else (Numeral.decimal? s).map .int := by
  have hstripped : Text.stripped s = s := by rw [Text.stripped, h, String.ofList_toList]
  have hplain : plainText? (.text s) = some s := by rw [plainText?_text, hstripped]
  simp only [coerceNumber, hplain, Option.bind_eq_bind, Option.bind_some]

theorem coerceNumber_of_opening (hc : c ∈ openings) (hs : s.toList = c :: cs) :
    coerceNumber (.text s) = none := by
  obtain ⟨ds, hds⟩ := exists_trim_of_opening hc hs
  have hplain : plainText? (.text s) = some (Text.stripped s) := plainText?_text s
  have htext : (Text.stripped s).toList = c :: ds := (Text.toList_stripped s).trans hds
  have hmark : Text.beginsWith "0x" (Text.lowered (Text.stripped s)) = false := by
    have hlead : "0x".toList = ['0', 'x'] := rfl
    have hzero : '0' ≠ c.toLower := (by decide : ∀ c ∈ openings, '0' ≠ c.toLower) c hc
    rw [Text.beginsWith, Text.lowered, String.toList_map, htext, hlead]
    simp [List.isPrefixOf, hzero]
  simp [coerceNumber, hplain, hmark, decimal?_of_opening hc htext]

theorem coerceAddress_of_opening (hc : c ∈ openings) (hs : s.toList = c :: cs) :
    coerceAddress (.text s) = none := by
  have hhex : Text.asciiHexValue? c = none :=
    (by decide : ∀ c ∈ openings, Text.asciiHexValue? c = none) c hc
  have hnumber : addressNumber? (c :: cs) = none := by
    simp only [addressNumber?]
    split
    next heq => cases heq; simp [openings] at hc
    next => simp [hhex]
  simp [coerceAddress, addressOf?, hs, hnumber]

theorem coerceBytes_of_opening (hc : c ∈ openings) (hs : s.toList = c :: cs) :
    coerceBytes (.text s) = none := by
  have hhex : Text.asciiHexValue? c = none :=
    (by decide : ∀ c ∈ openings, Text.asciiHexValue? c = none) c hc
  have hmark : withoutMark (c :: cs) = c :: cs := by
    unfold withoutMark
    split
    next heq => cases heq; simp [openings] at hc
    next => rfl
  have hodd : hexBytes? ('0' :: c :: cs) = none := by simp [hexBytes?, hhex]
  have heven : hexBytes? (c :: cs) = none := by
    cases cs with
    | nil => rfl
    | cons d ds => simp [hexBytes?, hhex]
  simp only [coerceBytes, hs, hmark]
  split <;> simp [hodd, heven]

/-- What opens in JSON is judged by digits to be nothing. -/
theorem coerceLeaf_of_opening {type : String} (hjudged : isJudgedByDigits type = true)
    (hc : c ∈ openings) (hs : s.toList = c :: cs) : coerceLeaf type (.text s) = none := by
  unfold coerceLeaf
  -- Numbers, truth values, addresses, byte strings, and texts; only the second and the last are
  -- not judged by digits.
  split
  next => exact coerceNumber_of_opening hc hs
  next hnumber =>
    split
    next heq =>
      rw [heq] at hjudged
      exact absurd hjudged (by decide)
    next =>
      split
      next => exact coerceAddress_of_opening hc hs
      next haddress =>
        rw [isJudgedByDigits, Bool.or_assoc] at hjudged
        split
        next => exact coerceBytes_of_opening hc hs
        next hbytes => simp_all

end Openings

section Texts

variable {s type : String} {v : Value}

theorem sequence?_of_coerceNumber (h : coerceNumber (.text s) = some v) : sequence? v = none := by
  simp only [coerceNumber] at h
  obtain ⟨text, -, htext⟩ := Option.bind_eq_some_iff.mp h
  split at htext <;>
    · obtain ⟨n, -, rfl⟩ := Option.map_eq_some_iff.mp htext
      rfl

/-- A text without parts does not become a list or a tuple. -/
theorem sequence?_of_coerceLeaf (h : coerceLeaf type (.text s) = some v) : sequence? v = none := by
  unfold coerceLeaf at h
  split at h
  next => exact sequence?_of_coerceNumber h
  next =>
    split at h
    next =>
      simp only [coerceTruth] at h
      obtain ⟨text, -, htruth⟩ := Option.bind_eq_some_iff.mp h
      cases htruth
      rfl
    next =>
      split at h
      next =>
        obtain ⟨n, -, rfl⟩ := Option.map_eq_some_iff.mp h
        rfl
      next =>
        split at h
        next =>
          obtain ⟨bs, -, rfl⟩ := Option.map_eq_some_iff.mp h
          rfl
        next =>
          cases h
          rfl

/-- What is neither a list nor a tuple is encoded only by types without parts. -/
theorem exists_elementary_of_encode? {type : AbiType} (hv : sequence? v = none)
    (h : (encode? type v).isSome = true) : ∃ elementary, type = .elementary elementary := by
  cases type with
  | elementary elementary => exact ⟨elementary, rfl⟩
  | _ => simp [encode?, hv] at h

end Texts

section Arrays

variable {s : String} {v : Value}

theorem head?_trimStart_of_cons {c : Char} {cs : List Char} (hc : Text.isBlank c = false)
    (hs : s.toList = c :: cs) : (Text.trimStart s.toList).head? = some c := by
  rw [hs, Text.trimStart_of_not_blank hc]
  rfl

/-- The items of a text that begins with a bracket are those of the list that it writes. -/
theorem arrayItems?_of_bracket {cs : List Char} (hs : s.toList = '[' :: cs)
    (hread : Json.read s = .ok v) : arrayItems? (.text s) = arrayItems? v := by
  have hhead := head?_trimStart_of_cons (by decide) hs
  have hlist : ∃ xs, v = .list xs := by
    rw [← String.ofList_toList (s := s), hs] at hread
    exact Json.exists_list_of_read hread
  obtain ⟨xs, rfl⟩ := hlist
  simp [arrayItems?, hhead, Json.read?, hread, Except.toOption]

/-- Other texts are cut at commas. -/
theorem arrayItems?_of_not_bracket (hs : (Text.trimStart s.toList).head? ≠ some '[') :
    arrayItems? (.text s) = some ((Text.pieces ',' s.toList).map fun piece =>
      .text (String.ofList (Text.trim piece))) := by
  simp [arrayItems?, hs]

theorem coerceArrays_succ {items : List Value} {depth : Nat} (hitems : arrayItems? v = some items)
    (coerce : Value → Option Value) :
    coerceArrays coerce (depth + 1) v =
      (coerceItems (coerceArrays coerce depth) items).map .list := by
  rw [coerceArrays, hitems, Option.map_eq_bind]
  rfl

theorem coerceArrays_one {items : List Value} (hitems : arrayItems? v = some items)
    (coerce : Value → Option Value) :
    coerceArrays coerce 1 v = (coerceItems coerce items).map .list := by
  have hzero : coerceArrays coerce 0 = coerce := by
    funext v
    rw [coerceArrays]
  rw [coerceArrays_succ hitems, hzero]

/-- A value without items is no array. -/
theorem coerceArrays_of_items (hv : v.items = .error (.notIterable v.kind))
    (coerce : Value → Option Value) (depth : Nat) : coerceArrays coerce (depth + 1) v = none := by
  have hnone : arrayItems? v = none := by
    cases v <;> first | rfl | cases hv
  rw [coerceArrays, hnone]
  rfl

/-- What opens a string or a table of JSON is no array of what is judged by digits. -/
theorem coerceArrays_of_opening {type : String} {c : Char} {cs : List Char}
    (hjudged : isJudgedByDigits type = true) (hc : c ∈ openings) (hbracket : c ≠ '[')
    (hs : s.toList = c :: cs) (depth : Nat) :
    coerceArrays (coerceLeaf type) depth (.text s) = none := by
  -- The first piece between commas opens as the text does, and it is judged again.
  induction depth generalizing s cs with
  | zero => exact coerceLeaf_of_opening hjudged hc hs
  | succ depth ih =>
      have hhead := head?_trimStart_of_cons (not_blank_of_opening hc) hs
      have hcomma : c ≠ ',' := (by decide : ∀ c ∈ openings, c ≠ ',') c hc
      obtain ⟨piece, rest, hpieces⟩ := Text.pieces_cons_of_ne hcomma cs
      obtain ⟨ds, hds⟩ := Text.trim_of_not_blank (not_blank_of_opening hc) piece
      have hfirst := ih (s := String.ofList (c :: ds)) String.toList_ofList
      have hitems := arrayItems?_of_not_bracket (s := s) (by simpa [hhead] using hbracket)
      rw [hs, hpieces, List.map_cons, hds] at hitems
      rw [coerceArrays, hitems]
      simp only [Option.bind_eq_bind, Option.bind_some, coerceItems, hfirst, Option.bind_none]

end Arrays

end ContractBench.Encoding
