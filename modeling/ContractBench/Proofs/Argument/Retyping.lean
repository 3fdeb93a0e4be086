import ContractBench.Argument.Reading
import ContractBench.Display
import ContractBench.Proofs.Argument.Suffixes
import ContractBench.Proofs.Encoding.TextArguments
import ContractBench.Proofs.Json.RoundTrip

/-! # Typing displayed integers again

What is displayed for an integer, or for nested arrays of integers, can be typed again as an
argument of the same type: it is read as what was displayed, and brought into the form of the value
that was there at first.
-/

namespace ContractBench.Argument

open Encoding

/-- A value is an integer of a type, or arrays of such integers that fit the suffixes. -/
def Matches (type : IntegerType) : List Suffix → Value → Prop
  | [], v => ∃ n, v = .int n ∧ type.Holds n
  | suffix :: suffixes, v => ∃ xs, v = .list xs ∧ suffix.Fits xs.length ∧
      ∀ x ∈ xs, Matches type suffixes x

/-- The text that is typed for what is displayed: the text itself, the items of an array with commas
between them, or JSON where arrays are nested. -/
def retyped? : List Suffix → Value → Option String
  | [], d => d.text?
  | [_], d => (d.items.toOption.bind fun items => items.mapM Value.text?).map (Text.joined ",")
  | _, d => (Json.write d).toOption

/-- What is displayed for a value that matches a type. -/
def displayed : List Suffix → Value → Value
  | [], .int n => .text (Numeral.print n)
  | _ :: suffixes, .list xs => .list (xs.map (displayed suffixes))
  | _, v => v

section Display

variable {type : IntegerType} {suffixes : List Suffix} {v : Value}

theorem shownItems_map {f : Value → Value} {xs : List Value}
    (h : ∀ x ∈ xs, Display.shown x = .ok (f x)) : Display.shownItems xs = .ok (xs.map f) := by
  induction xs with
  | nil => rfl
  | cons x xs ih =>
      obtain ⟨hx, hxs⟩ := List.forall_mem_cons.mp h
      rw [Display.shownItems, hx, ih hxs]
      rfl

theorem shown_of_matches (h : Matches type suffixes v) :
    Display.shown v = .ok (displayed suffixes v) := by
  induction suffixes generalizing v with
  | nil =>
      obtain ⟨n, rfl, hn⟩ := h
      rw [Display.shown, Value.printInt, hn.print?]
      rfl
  | cons suffix suffixes ih =>
      obtain ⟨xs, rfl, -, hxs⟩ := h
      rw [Display.shown, shownItems_map fun x hx => ih (hxs x hx)]
      rfl

/-- What is displayed is kept by JSON. -/
theorem kept_displayed (h : Matches type suffixes v) : Json.Kept (displayed suffixes v) := by
  induction suffixes generalizing v with
  | nil =>
      obtain ⟨n, rfl, -⟩ := h
      exact .text (Json.keptText _)
  | cons suffix suffixes ih =>
      obtain ⟨xs, rfl, -, hxs⟩ := h
      refine .list fun d hd => ?_
      obtain ⟨x, hx, rfl⟩ := List.mem_map.mp hd
      exact ih (hxs x hx)

end Display

section Form

variable {type : IntegerType} {suffixes : List Suffix} {v : Value}

theorem coerceItems_map {coerce : Value → Option Value} {f : Value → Value} {xs : List Value}
    (h : ∀ x ∈ xs, coerce (f x) = some x) : coerceItems coerce (xs.map f) = some xs := by
  induction xs with
  | nil => rfl
  | cons x xs ih =>
      obtain ⟨hx, hxs⟩ := List.forall_mem_cons.mp h
      rw [List.map_cons, coerceItems, hx, ih hxs]
      rfl

/-- What is displayed is brought into the form of the value if its numbers are. -/
theorem coerceArrays_displayed {coerce : Value → Option Value}
    (hcoerce : ∀ n, type.Holds n → coerce (.text (Numeral.print n)) = some (.int n))
    (h : Matches type suffixes v) :
    coerceArrays coerce suffixes.length (displayed suffixes v) = some v := by
  induction suffixes generalizing v with
  | nil =>
      obtain ⟨n, rfl, hn⟩ := h
      rw [List.length_nil, coerceArrays]
      exact hcoerce n hn
  | cons suffix suffixes ih =>
      obtain ⟨xs, rfl, -, hxs⟩ := h
      have hitems : arrayItems? (displayed (suffix :: suffixes) (.list xs)) =
          some (xs.map (displayed suffixes)) := rfl
      rw [List.length_cons, coerceArrays_succ hitems, coerceItems_map fun x hx => ih (hxs x hx)]
      rfl

/-- No written number has the mark of hexadecimal digits. -/
theorem not_marked_print (n : Int) :
    Text.beginsWith "0x" (Text.lowered (Numeral.print n)) = false := by
  cases hmark : Text.beginsWith "0x" (Text.lowered (Numeral.print n)) with
  | false => rfl
  | true =>
      have hx : 'x' ∈ (Text.lowered (Numeral.print n)).toList :=
        (Text.beginsWith_iff.mp hmark).subset (by decide)
      rw [Text.lowered, String.toList_map] at hx
      obtain ⟨c, hc, heq⟩ := List.mem_map.mp hx
      have hlower : ∀ c ∈ Numeral.signs, c.toLower ≠ 'x' := by decide
      exact absurd heq (hlower c (Numeral.mem_signs_of_mem_print hc))

theorem coerceNumber_decimal (n : Int) :
    coerceNumber (.text (Numeral.print n)) =
      (Numeral.decimal? (Numeral.print n)).map .int := by
  rw [coerceNumber_of_trim (Numeral.trim_print n), not_marked_print]
  rfl

theorem coerceNumber_print {n : Int} (h : Numeral.print? n = some (Numeral.print n)) :
    coerceNumber (.text (Numeral.print n)) = some (.int n) := by
  rw [coerceNumber_decimal, Numeral.decimal?_of_print? h, Option.map_some]

theorem coerceLeaf_print {n : Int} (h : type.Holds n) :
    coerceLeaf (String.ofList type.word) (.text (Numeral.print n)) = some (.int n) := by
  have hnumber : (Text.beginsWith "uint" (String.ofList type.word) ||
      Text.beginsWith "int" (String.ofList type.word)) = true := by
    cases type <;> decide
  rw [coerceLeaf, if_pos hnumber]
  exact coerceNumber_print h.print?

/-- The parameter that is declared with a type and nothing else. -/
def parameterOf (type : IntegerType) (suffixes : List Suffix) : Parameter :=
  .mk (named type suffixes) none []

theorem not_isTuple_named (type : IntegerType) (suffixes : List Suffix) :
    Parameter.isTuple (named type suffixes) = false := by
  rw [← Bool.not_eq_true, Parameter.isTuple, Text.beginsWith_iff, named, String.toList_ofList]
  exact not_tupleWord_prefix type suffixes _

theorem ofValue_named (type : IntegerType) (suffixes : List Suffix) :
    Parameter.ofValue (Value.ofFields [("type", .text (named type suffixes))]) =
      .ok (parameterOf type suffixes) := by
  have hneed : (Value.ofFields [("type", .text (named type suffixes))]).need "type" =
      .ok (.text (named type suffixes)) := by
    simp [Value.need, Value.ofFields, Ordered.get?]
  have hname : Ordered.get? [(Value.text "type", Value.text (named type suffixes))]
      (.text "name") = none := by
    simp [Ordered.get?]
  rw [Value.ofFields] at hneed ⊢
  rw [List.map_singleton] at hneed ⊢
  rw [Parameter.ofValue, hneed, hname]
  simp only [bind, Except.bind, Parameter.typeText, not_isTuple_named, Bool.false_eq_true, if_false]
  rfl

/-- What is displayed is brought into the form of the value. -/
theorem coerce?_displayed (h : Matches type suffixes v) :
    coerce? (parameterOf type suffixes) (displayed suffixes v) = some v := by
  have hsplit : withoutArrays (named type suffixes).length (named type suffixes).toList =
      (type.word, suffixes.length) := by
    rw [named, String.toList_ofList, String.length_ofList]
    exact withoutArrays_suffixed type suffixes (length_le_length_suffixed type suffixes)
  have hword : String.ofList type.word ≠ Parameter.tupleWord := by cases type <;> decide
  rw [parameterOf, coerce?, hsplit]
  refine coerceArrays_displayed (fun n hn => ?_) h
  rw [if_neg hword]
  exact coerceLeaf_print hn

end Form

section Reading

variable {type : IntegerType} {suffixes : List Suffix} {v : Value}

/-- A text without blanks around it is read in the way of its type. -/
theorem read_of_way {value name : String} {way : ArgumentType} {d : Value}
    (htrim : Text.trim value.toList = value.toList) (hne : value.toList ≠ [])
    (hway : ArgumentType.ofText name = .ok way) (hread : readAs name way value.toList = .ok d) :
    read value name = .ok (some d) := by
  rw [read, htrim]
  simp only [if_neg hne, orFail_eq_ok.mpr hway, bind, Except.bind, hread, pure, Except.pure]

theorem scalar?_print (type : IntegerType) (n : Int) :
    scalar? (named type []) (Numeral.print n).toList = some (.text (Numeral.print n)) := by
  have hbool : Text.stripped (named type []) ≠ "bool" := by cases type <;> decide
  simp only [scalar?, Numeral.trim_print, if_neg (Numeral.print_ne_nil n), if_neg hbool,
    String.ofList_toList]

theorem scalars?_map {base : String} {f : Int → List Char} {g : Int → Value} {ns : List Int}
    (h : ∀ n ∈ ns, scalar? base (f n) = some (g n)) :
    scalars? base (ns.map f) = some (ns.map g) := by
  induction ns with
  | nil => rfl
  | cons n ns ih =>
      obtain ⟨hn, hns⟩ := List.forall_mem_cons.mp h
      rw [List.map_cons, scalars?, hn, ih hns]
      rfl

theorem exists_numbers {xs : List Value} (h : ∀ x ∈ xs, Matches type [] x) :
    ∃ ns : List Int, xs = ns.map .int := by
  induction xs with
  | nil => exact ⟨[], rfl⟩
  | cons x xs ih =>
      obtain ⟨⟨n, rfl, -⟩, hxs⟩ := List.forall_mem_cons.mp h
      obtain ⟨ns, rfl⟩ := ih hxs
      exact ⟨n :: ns, rfl⟩

/-- The text of numbers with commas between them. -/
def listed (ns : List Int) : String := Text.joined "," (ns.map Numeral.print)

theorem pieces_listed {ns : List Int} (hne : ns ≠ []) :
    Text.pieces ',' (listed ns).toList = ns.map fun n => (Numeral.print n).toList := by
  have hcomma : ∀ part ∈ ns.map Numeral.print, ',' ∉ part.toList := by
    intro part hpart hmem
    obtain ⟨n, -, rfl⟩ := List.mem_map.mp hpart
    exact absurd (Numeral.mem_signs_of_mem_print hmem) (by decide)
  have hpieces := Text.pieces_joined (by simpa using hne) hcomma
  rw [List.map_map] at hpieces
  exact hpieces

theorem stripped_listed {ns : List Int} (hne : ns ≠ []) :
    Text.stripped (listed ns) = listed ns ∧ listed ns ≠ "" := by
  refine Text.stripped_joined (by simpa using hne) fun text htext => ?_
  obtain ⟨n, -, rfl⟩ := List.mem_map.mp htext
  refine ⟨?_, fun hempty => Numeral.print_ne_nil n (String.toList_eq_nil_iff.mpr hempty)⟩
  rw [Text.stripped, Numeral.trim_print, String.ofList_toList]

theorem elements_listed {ns : List Int} (hne : ns ≠ []) (type : IntegerType) (name : String) :
    elements name (named type []) (listed ns).toList =
      .ok (ns.map fun n => .text (Numeral.print n)) := by
  have hscalars := scalars?_map fun n (_ : n ∈ ns) => scalar?_print type n
  rw [elements, pieces_listed hne, hscalars]

theorem displayed_numbers (suffix : Suffix) (ns : List Int) :
    displayed [suffix] (.list (ns.map .int)) = .list (ns.map fun n => .text (Numeral.print n)) := by
  rw [displayed, List.map_map]
  rfl

theorem retyped?_listed (suffix : Suffix) (ns : List Int) :
    retyped? [suffix] (displayed [suffix] (.list (ns.map .int))) = some (listed ns) := by
  have htexts : (ns.map fun n => Value.text (Numeral.print n)).mapM Value.text? =
      some (ns.map Numeral.print) := by
    induction ns with
    | nil => rfl
    | cons n ns ih =>
        rw [List.map_cons, List.mapM_cons, ih]
        rfl
  rw [displayed_numbers, retyped?]
  change (List.mapM Value.text? _).map _ = _
  rw [htexts]
  rfl

/-- Items with commas between them are read as an array. -/
theorem read_listed {suffix : Suffix} {ns : List Int} (hne : ns ≠ [])
    (hfits : suffix.Fits ns.length) :
    read (listed ns) (named type [suffix]) =
      .ok (some (displayed [suffix] (.list (ns.map .int)))) := by
  have helements := elements_listed hne type (named type [suffix])
  obtain ⟨hstripped, hlisted⟩ := stripped_listed hne
  have htrim : Text.trim (listed ns).toList = (listed ns).toList := by
    rw [← Text.toList_stripped, hstripped]
  have hsome : (listed ns).toList ≠ [] := fun h => hlisted (String.toList_eq_nil_iff.mp h)
  rw [displayed_numbers]
  cases suffix with
  | any =>
      refine read_of_way htrim hsome (ofText_array type) ?_
      rw [readAs, helements]
      rfl
  | exactly length =>
      obtain ⟨rfl, hlength⟩ := hfits
      refine read_of_way htrim hsome (ofText_fixedArray type hlength) ?_
      rw [readAs, helements]
      simp [bind, Except.bind, pure, Except.pure]

/-- Nested arrays are read as JSON. -/
theorem read_nested (hnested : 1 < suffixes.length) (h : Matches type suffixes v) :
    ∃ text, retyped? suffixes (displayed suffixes v) = some text ∧
      read text (named type suffixes) = .ok (some (displayed suffixes v)) := by
  obtain ⟨text, hwrite, hread⟩ := Json.exists_write_read (kept_displayed h)
  cases suffixes with
  | nil => cases hnested
  | cons suffix suffixes =>
      cases suffixes with
      | nil => exact absurd hnested (Nat.lt_irrefl 1)
      | cons next suffixes =>
          obtain ⟨xs, rfl, -⟩ := h
          obtain ⟨htrim, hne⟩ := Json.trim_of_write_list hwrite
          have htext (d : Value) :
              retyped? (suffix :: next :: suffixes) d = (Json.write d).toOption := rfl
          refine ⟨text, by rw [htext, hwrite]; rfl,
            read_of_way htrim hne (ofText_nested type hnested) ?_⟩
          rw [readAs, String.ofList_toList, hread]
          rfl

end Reading

/-- Displayed integers can be typed again: what is displayed for an integer or for nested arrays of
integers is read as what is displayed, and it is brought into the form of the value. -/
theorem displayed_retyped {type : IntegerType} {suffixes : List Suffix} {v : Value}
    (h : Matches type suffixes v) (hsome : suffixes.length = 1 → v ≠ .list []) :
    ∃ d text parameter, Display.shown v = .ok d ∧ retyped? suffixes d = some text ∧
      read text (named type suffixes) = .ok (some d) ∧
      Parameter.ofValue (Value.ofFields [("type", .text (named type suffixes))]) = .ok parameter ∧
      coerce? parameter d = some v := by
  have hread : ∃ text, retyped? suffixes (displayed suffixes v) = some text ∧
      read text (named type suffixes) = .ok (some (displayed suffixes v)) := by
    match suffixes, h, hsome with
    | [], ⟨n, hv, hn⟩, _ =>
        subst hv
        refine ⟨Numeral.print n, rfl, read_of_way (Numeral.trim_print n) (Numeral.print_ne_nil n)
          (ofText_scalar type) ?_⟩
        rw [readAs, scalar?_print]
        rfl
    | [suffix], ⟨xs, hv, hfits, hxs⟩, hsome =>
        obtain ⟨ns, rfl⟩ := exists_numbers hxs
        subst hv
        have hne : ns ≠ [] := by
          rintro rfl
          exact hsome rfl rfl
        rw [List.length_map] at hfits
        exact ⟨listed ns, retyped?_listed suffix ns, read_listed hne hfits⟩
    | first :: second :: more, h, _ => exact read_nested (Nat.succ_lt_succ (Nat.zero_lt_succ _)) h
  obtain ⟨text, htext, hread⟩ := hread
  exact ⟨displayed suffixes v, text, parameterOf type suffixes, shown_of_matches h, htext, hread,
    ofValue_named type suffixes, coerce?_displayed h⟩

/-- Pairs of numbers in an array of any length, one of them as large as the type allows. -/
theorem displayed_retyped_of_pairs :
    let suffixes : List Suffix := [.any, .exactly 2]
    let v : Value := .list [.list [.int 1, .int (Nat.pow 2 256 - 1)], .list [.int 0, .int 7]]
    (Matches .unsigned suffixes v ∧ (suffixes.length = 1 → v ≠ .list [])) ∧
      ∃ d text parameter, Display.shown v = .ok d ∧ retyped? suffixes d = some text ∧
        read text (named .unsigned suffixes) = .ok (some d) ∧
        Parameter.ofValue (Value.ofFields [("type", .text (named .unsigned suffixes))]) =
          .ok parameter ∧
        coerce? parameter d = some v := by
  intro suffixes v
  have hnumber {n : Int} (h : 0 ≤ n ∧ n < Nat.pow 2 256) : Matches .unsigned [] (.int n) :=
    ⟨n, rfl, h⟩
  have hpair {m n : Int} (hm : 0 ≤ m ∧ m < Nat.pow 2 256) (hn : 0 ≤ n ∧ n < Nat.pow 2 256) :
      Matches .unsigned [.exactly 2] (.list [.int m, .int n]) := by
    refine ⟨_, rfl, ⟨rfl, by decide⟩, ?_⟩
    simpa using And.intro (hnumber hm) (hnumber hn)
  have hmatches : Matches .unsigned suffixes v := by
    refine ⟨_, rfl, trivial, ?_⟩
    simpa using And.intro (hpair (by decide) (by decide)) (hpair (by decide) (by decide))
  exact ⟨⟨hmatches, nofun⟩, displayed_retyped hmatches nofun⟩

end ContractBench.Argument
