import ContractBench.Proofs.Argument.Agreement
import ContractBench.Proofs.Traversal

/-! # Elements of arrays

A text for an array of values without parts is cut at its commas, and each piece is read as a value
of the base of the type. The base is never a type with parts itself, so the elements are texts or
truth values, and what was read can be written and read again.
-/

namespace ContractBench.Argument

namespace ArgumentType

variable {cs : List Char} {type base : String} {way : ArgumentType} {length? : Option Nat}

/-- The base of an array that is cut at commas, and the length that its type sets. -/
def arrayParts? : ArgumentType → Option (String × Option Nat)
  | array base => some (base, none)
  | fixedArray base length => some (base, some length)
  | _ => none

/-- The base of an array stands in front of the only bracket, and no tuple is cut at commas. -/
theorem base_of_ofChars (h : ofChars cs = .ok way) (hway : way.arrayParts? = some (base, length?)) :
    ¬tupleWord <+: cs ∧ '[' ∉ base.toList ∧ base.toList <+: cs := by
  have htells := tells_ofChars cs
  rw [h] at htells
  cases htells with
  | nested | tuple | scalar => cases hway
  | array htuple hflat hsplit =>
      cases hway
      rw [String.toList_ofList]
      exact ⟨htuple, hflat, hsplit ▸ List.prefix_append _ _⟩
  | fixedArray htuple hsized =>
      cases hway
      rw [String.toList_ofList]
      exact ⟨htuple, hsized.flat, hsized.split ▸ List.prefix_append _ _⟩

/-- The base of an array that is cut at commas is a type of values without parts. -/
theorem ofText_base (h : ofText type = .ok way) (hway : way.arrayParts? = some (base, length?)) :
    ofText base = .ok (.scalar (Text.stripped base)) := by
  obtain ⟨htuple, hbracket, hbase⟩ := base_of_ofChars h hway
  -- The type has no blank in front, so its base has none.
  have hfirst : ∀ c ∈ base.toList.head?, Text.isBlank c = false := by
    intro c hc
    obtain ⟨rest, hrest⟩ := hbase
    obtain ⟨cs, hcs⟩ := List.head?_eq_some_iff.mp (Option.mem_def.mp hc)
    have hhead : c ∈ (Text.trim type.toList).head? := by
      rw [← hrest, hcs]
      rfl
    exact Text.not_blank_of_head?_trim hhead
  have htrim := Text.trim_prefix hfirst
  exact ofChars_of_notMem (fun h => hbracket (htrim.subset h))
    (fun h => htuple ((h.trans htrim).trans hbase))

end ArgumentType

section Scalars

variable {base piece : String} {cs : List Char}

theorem scalar?_eq_none_iff : scalar? base cs = none ↔ Text.trim cs = [] := by
  constructor
  · intro h
    by_contra hsome
    obtain ⟨x, hx⟩ := exists_scalar? base hsome
    rw [h] at hx
    cases hx
  · intro h
    simp only [scalar?, h, if_true]

/-- Neither the base nor the text need be cut of its blanks. -/
theorem scalar?_stripped (base : String) (cs : List Char) :
    scalar? (Text.stripped base) (Text.trim cs) = scalar? base cs := by
  have hbase : Text.stripped (Text.stripped base) = Text.stripped base :=
    Text.stripped_ofList_trim base.toList
  simp only [scalar?, Text.trim_trim, hbase]

/-- A value of a type without parts is read as such. -/
theorem read_scalar (hbase : ArgumentType.ofText base = .ok (.scalar (Text.stripped base)))
    (piece : String) : read piece base = .ok (scalar? base piece.toList) := by
  rw [read]
  by_cases hblank : Text.trim piece.toList = []
  · rw [scalar?_eq_none_iff.mpr hblank]
    simp only [hblank, if_true]
    rfl
  · obtain ⟨x, hx⟩ := exists_scalar? base hblank
    have hread : readAs base (.scalar (Text.stripped base)) (Text.trim piece.toList) = .ok x := by
      rw [readAs, scalar?_stripped, hx, Option.getD_some]
    simp only [if_neg hblank, orFail_eq_ok.mpr hbase, bind, Except.bind, hread, hx]
    rfl

theorem scalars?_eq_mapM (base : String) (pieces : List (List Char)) :
    scalars? base pieces = pieces.mapM (scalar? base) := by
  induction pieces with
  | nil => rfl
  | cons piece pieces ih => rw [scalars?, ih, List.mapM_cons]

theorem scalars?_eq_none_iff {pieces : List (List Char)} :
    scalars? base pieces = none ↔ ∃ piece ∈ pieces, Text.trim piece = [] := by
  induction pieces with
  | nil => simp [scalars?]
  | cons piece pieces ih =>
      have hsplit : scalars? base (piece :: pieces) = none ↔
          scalar? base piece = none ∨ scalars? base pieces = none := by
        rw [scalars?]
        cases scalar? base piece <;> cases scalars? base pieces <;> simp
      rw [hsplit, scalar?_eq_none_iff, ih, List.exists_mem_cons_iff]

theorem scalar?_trim (base : String) (cs : List Char) :
    scalar? base (Text.trim cs) = scalar? base cs := by
  simp only [scalar?, Text.trim_trim]

end Scalars

section Rejoining

variable {pieces : List (List Char)}

/-- Pieces without the blanks around them, with commas between them. -/
def rejoined (pieces : List (List Char)) : String :=
  Text.joined "," (pieces.map fun piece => String.ofList (Text.trim piece))

theorem pieces_rejoined (hne : pieces ≠ []) (hcomma : ∀ piece ∈ pieces, ',' ∉ piece) :
    Text.pieces ',' (rejoined pieces).toList = pieces.map Text.trim := by
  refine (@Text.pieces_joined ',' _ (by simpa using hne) fun text htext hmem => ?_).trans ?_
  · obtain ⟨piece, hpiece, rfl⟩ := List.mem_map.mp htext
    rw [String.toList_ofList] at hmem
    exact hcomma piece hpiece (Text.mem_of_mem_trim hmem)
  · simp [Function.comp_def]

/-- Pieces that are not blank need no cutting where they are joined. -/
theorem stripped_rejoined (hne : pieces ≠ []) (hsome : ∀ piece ∈ pieces, Text.trim piece ≠ []) :
    Text.stripped (rejoined pieces) = rejoined pieces ∧ rejoined pieces ≠ "" := by
  refine @Text.stripped_joined "," _ (by simpa using hne) fun text htext => ?_
  obtain ⟨piece, hpiece, rfl⟩ := List.mem_map.mp htext
  refine ⟨Text.stripped_ofList_trim piece, fun hempty => hsome piece hpiece ?_⟩
  rwa [← String.toList_inj, String.toList_ofList] at hempty

theorem scalars?_map_trim (base : String) (pieces : List (List Char)) :
    scalars? base (pieces.map Text.trim) = scalars? base pieces := by
  rw [scalars?_eq_mapM, List.mapM_map, scalars?_eq_mapM]
  exact congrArg (pieces.mapM ·) (funext (scalar?_trim base))

end Rejoining

section Arrays

variable {type value base : String} {way : ArgumentType} {length? : Option Nat}

/-- The pieces between the commas of a text without the blanks at its ends. -/
def piecesOf (value : String) : List String :=
  (Text.pieces ',' (Text.trim value.toList)).map String.ofList

theorem read_eq_of_arrayParts? (htype : ArgumentType.ofText type = .ok way)
    (hway : way.arrayParts? = some (base, length?)) (hvalue : Text.stripped value ≠ "") :
    read value type =
      (scalars? base (Text.pieces ',' (Text.trim value.toList))).elim
        (.error (emptyElement type (Text.stripped value)))
        fun xs =>
          if ∀ n ∈ length?, xs.length = n then .ok (some (.list xs))
          else .error (wrongCount (length?.getD 0) type xs.length) := by
  have hsome : Text.trim value.toList ≠ [] := fun h => hvalue (Text.stripped_eq_empty_iff.mpr h)
  rw [read]
  simp only [if_neg hsome, orFail_eq_ok.mpr htype, bind, Except.bind]
  cases way with
  | array =>
      cases hway
      rw [readAs, elements]
      cases scalars? base (Text.pieces ',' (Text.trim value.toList)) with
      | none => rfl
      | some xs =>
          have hall : ∀ n ∈ (none : Option Nat), xs.length = n := by simp
          rw [Option.elim_some, if_pos hall]
          rfl
  | fixedArray item length =>
      cases hway
      rw [readAs, elements]
      cases scalars? base (Text.pieces ',' (Text.trim value.toList)) with
      | none => rfl
      | some xs =>
          by_cases hlength : xs.length = length <;>
            simp [bind, Except.bind, pure, Except.pure, throw, throwThe, MonadExceptOf.throw,
              hlength, eq_comm (a := length)]
  | _ => cases hway

/-- A value without parts, as it is typed. -/
inductive IsScalar : Value → Prop
  | text (s : String) : IsScalar (.text s)
  | truth (b : Bool) : IsScalar (.bool b)

theorem isScalar_of_scalar? {cs : List Char} {x : Value} (h : scalar? base cs = some x) :
    IsScalar x ∧ (Text.stripped base ≠ "bool" → x = .text (String.ofList (Text.trim cs))) := by
  simp only [scalar?] at h
  split at h
  next => cases h
  next =>
    split at h
    next hbool =>
      cases h
      exact ⟨.truth _, fun hne => absurd hbool hne⟩
    next =>
      cases h
      exact ⟨.text _, fun _ => rfl⟩

theorem isScalar_of_mem {pieces : List (List Char)} {xs : List Value}
    (h : scalars? base pieces = some xs) : ∀ x ∈ xs, IsScalar x := by
  rw [scalars?_eq_mapM, mapM_eq_some_iff] at h
  induction h with
  | nil => nofun
  | cons hx _ ih => exact List.forall_mem_cons.mpr ⟨(isScalar_of_scalar? hx).1, ih⟩

theorem blank_piece_iff {value : String} :
    (∃ piece ∈ piecesOf value, Text.stripped piece = "") ↔
      ∃ piece ∈ Text.pieces ',' (Text.trim value.toList), Text.trim piece = [] := by
  simp [piecesOf, Text.stripped_eq_empty_iff]

/-- The elements of an array are its pieces, read one by one. -/
theorem forall₂_read_piecesOf
    (hbase : ArgumentType.ofText base = .ok (.scalar (Text.stripped base))) {xs : List Value}
    (h : scalars? base (Text.pieces ',' (Text.trim value.toList)) = some xs) :
    List.Forall₂ (fun piece x => read piece base = .ok (some x)) (piecesOf value) xs := by
  rw [scalars?_eq_mapM, mapM_eq_some_iff] at h
  rw [piecesOf, List.forall₂_map_left_iff]
  refine h.imp fun piece x hx => ?_
  rw [read_scalar hbase, String.toList_ofList, hx]

/-- Texts that were read of an array are read again where they are written with commas. -/
theorem exists_read_again (htype : ArgumentType.ofText type = .ok way)
    (hway : way.arrayParts? = some (base, length?)) (hvalue : Text.stripped value ≠ "")
    (hbool : Text.stripped base ≠ "bool") {xs : List Value}
    (h : scalars? base (Text.pieces ',' (Text.trim value.toList)) = some xs) :
    ∃ texts : List String, xs = texts.map .text ∧
      read (Text.joined "," texts) type = read value type := by
  have hread := read_eq_of_arrayParts? htype hway hvalue
  have hsome : ∀ piece ∈ Text.pieces ',' (Text.trim value.toList), Text.trim piece ≠ [] := by
    intro piece hpiece hblank
    rw [scalars?_eq_none_iff.mpr ⟨piece, hpiece, hblank⟩] at h
    cases h
  have hcomma : ∀ piece ∈ Text.pieces ',' (Text.trim value.toList), ',' ∉ piece :=
    fun piece hpiece => Text.notMem_of_mem_pieces hpiece
  have hne : Text.pieces ',' (Text.trim value.toList) ≠ [] := by
    obtain ⟨piece, rest, hpieces⟩ := Text.exists_pieces_eq_cons ',' (Text.trim value.toList)
    rw [hpieces]
    exact List.cons_ne_nil _ _
  generalize Text.pieces ',' (Text.trim value.toList) = pieces at h hread hsome hcomma hne
  refine ⟨pieces.map fun piece => String.ofList (Text.trim piece), ?_, ?_⟩
  · rw [scalars?_eq_mapM, mapM_eq_some_iff] at h
    rw [List.map_map, ← List.forall₂_eq_eq_eq, List.forall₂_map_right_iff]
    exact .flip (h.imp fun piece x hx => (isScalar_of_scalar? hx).2 hbool)
  · obtain ⟨hjoined, hjoinedNe⟩ := stripped_rejoined hne hsome
    have hpieces : Text.pieces ',' (Text.trim (rejoined pieces).toList) = pieces.map Text.trim := by
      rw [← Text.toList_stripped, hjoined, pieces_rejoined hne hcomma]
    have hagainNe : Text.stripped (rejoined pieces) ≠ "" := by rwa [hjoined]
    have hagain := read_eq_of_arrayParts? htype hway hagainNe
    rw [hpieces, scalars?_map_trim, h, Option.elim_some] at hagain
    rw [h, Option.elim_some] at hread
    exact hagain.trans hread.symm

/-- A text for an array is cut at its commas. A blank piece is a failure of form; else the number of
pieces has to be the length that the type sets, and each piece is read by itself as a value of the
base, which has no parts. Where these are no truth values, writing them with commas between them and
reading them again gives them back. -/
theorem read_array_of_pieces (htype : ArgumentType.ofText type = .ok way)
    (hway : way.arrayParts? = some (base, length?)) (hvalue : Text.stripped value ≠ "") :
    ArgumentType.ofText base = .ok (.scalar (Text.stripped base)) ∧
    ((∃ message field, read value type = .error (.argument .format message field)) ↔
      ∃ piece ∈ piecesOf value, Text.stripped piece = "") ∧
    ((∀ piece ∈ piecesOf value, Text.stripped piece ≠ "") →
      ((∃ message field, read value type = .error (.argument .count message field)) ↔
        ∃ n ∈ length?, (piecesOf value).length ≠ n) ∧
      ((∀ n ∈ length?, (piecesOf value).length = n) →
        ∃ xs, read value type = .ok (some (.list xs)) ∧
          List.Forall₂ (fun piece x => read piece base = .ok (some x)) (piecesOf value) xs ∧
          (∀ x ∈ xs, IsScalar x) ∧
          (Text.stripped base ≠ "bool" → ∃ texts : List String, xs = texts.map .text ∧
            read (Text.joined "," texts) type = .ok (some (.list xs))))) := by
  have hbase := ArgumentType.ofText_base htype hway
  have hread := read_eq_of_arrayParts? htype hway hvalue
  refine ⟨hbase, ?_⟩
  rw [blank_piece_iff, ← @scalars?_eq_none_iff base]
  cases hscalars : scalars? base (Text.pieces ',' (Text.trim value.toList)) with
  | none =>
      rw [hscalars] at hread
      have hblank := blank_piece_iff.mpr (scalars?_eq_none_iff.mp hscalars)
      refine ⟨iff_of_true ⟨_, _, hread⟩ rfl, fun hall => ?_⟩
      obtain ⟨piece, hpiece, hempty⟩ := hblank
      exact absurd hempty (hall piece hpiece)
  | some xs =>
      rw [hscalars, Option.elim_some] at hread
      have helements := forall₂_read_piecesOf hbase hscalars
      have hlength : (piecesOf value).length = xs.length := helements.length_eq
      rw [hlength]
      by_cases hall : ∀ n ∈ length?, xs.length = n
      · rw [if_pos hall] at hread
        refine ⟨iff_of_false (by simp [hread]) nofun, fun _ => ⟨?_, fun _ =>
          ⟨xs, hread, helements, isScalar_of_mem hscalars, fun hbool => ?_⟩⟩⟩
        · refine iff_of_false (by simp [hread]) ?_
          rintro ⟨n, hn, hne⟩
          exact hne (hall n hn)
        · rw [← hread]
          exact exists_read_again htype hway hvalue hbool hscalars
      · rw [if_neg hall] at hread
        refine ⟨iff_of_false (by simp [hread, wrongCount]) nofun, fun _ => ⟨?_, fun h =>
          absurd h hall⟩⟩
        exact iff_of_true ⟨_, _, hread⟩ (by simpa using hall)

/-- Two numbers with blanks around them, for a type with blanks in it. -/
theorem read_array_of_two_numbers :
    let type := " int256 [2]"
    let value := " 7 , -3 "
    (ArgumentType.ofText type = .ok (.fixedArray "int256 " 2) ∧
      (ArgumentType.fixedArray "int256 " 2).arrayParts? = some ("int256 ", some 2) ∧
      Text.stripped value ≠ "") ∧
    piecesOf value = ["7 ", " -3"] ∧
    ∃ texts : List String, texts.length = 2 ∧
      read value type = .ok (some (.list (texts.map .text))) ∧
      read (Text.joined "," texts) type = .ok (some (.list (texts.map .text))) := by
  intro type value
  have htype : ArgumentType.ofText type = .ok (.fixedArray "int256 " 2) := by decide +kernel
  have hway : (ArgumentType.fixedArray "int256 " 2).arrayParts? = some ("int256 ", some 2) := rfl
  have hvalue : Text.stripped value ≠ "" := by decide +kernel
  have hpieces : piecesOf value = ["7 ", " -3"] := by decide +kernel
  obtain ⟨-, -, hrest⟩ := read_array_of_pieces htype hway hvalue
  obtain ⟨-, helements⟩ := hrest (by rw [hpieces]; decide +kernel)
  obtain ⟨xs, hread, hxs, -, hagain⟩ := helements (by rw [hpieces]; decide)
  obtain ⟨texts, rfl, hagain⟩ := hagain (by decide +kernel)
  refine ⟨⟨htype, hway, hvalue⟩, hpieces, texts, ?_, hread, hagain⟩
  simpa [hpieces] using hxs.length_eq.symm

end Arrays

end ContractBench.Argument
