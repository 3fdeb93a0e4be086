import ContractBench.Proofs.Encoding.ParameterShapes

/-! # Nested type texts

The text of a tuple type is taken apart at the commas that stand in no parentheses but its own, and
that of an array type in front of its last bracket. So the type as which a parameter is encoded has
the parts that the parameter has.
-/

namespace ContractBench.Encoding

open Text (isWord)
open TypeSyntax (resolved resolvedFrom fullName shortNames lengthChars)

section Depth

variable {c : Char} {cs more : List Char} {d e : Nat}

/-- The depth in parentheses behind a character. No parenthesis closes without one that is open, and
no comma stands at the depth zero. -/
def deeper? (d : Nat) (c : Char) : Option Nat :=
  if c = '(' then some (d + 1)
  else if c = ')' then if d = 0 then none else some (d - 1)
  else if c = ',' ∧ d = 0 then none
  else some d

def depth? (d : Nat) (cs : List Char) : Option Nat := cs.foldlM deeper? d

/-- A text that can stand between commas: its parentheses are closed, and its commas stand in
them. -/
def IsPart (cs : List Char) : Prop := depth? 0 cs = some 0

instance (cs : List Char) : Decidable (IsPart cs) :=
  inferInstanceAs (Decidable (depth? 0 cs = some 0))

/-- The characters that nest texts. -/
def nestings : List Char := ['(', ')', ',']

theorem depth?_nil : depth? d [] = some d := rfl

theorem depth?_cons : depth? d (c :: cs) = (deeper? d c).bind fun e => depth? e cs := by
  rw [depth?, List.foldlM_cons]
  rfl

theorem depth?_append : depth? d (cs ++ more) = (depth? d cs).bind fun e => depth? e more := by
  rw [depth?, List.foldlM_append]
  rfl

theorem deeper?_of_notMem (h : c ∉ nestings) : deeper? d c = some d := by
  simp only [nestings, List.mem_cons, List.not_mem_nil, or_false, not_or] at h
  rw [deeper?, if_neg h.1, if_neg h.2.1, if_neg fun hcomma => h.2.2 hcomma.1]

theorem depth?_of_notMem (h : ∀ c ∈ cs, c ∉ nestings) : depth? d cs = some d := by
  induction cs with
  | nil => rfl
  | cons c cs ih =>
      obtain ⟨hc, hcs⟩ := List.forall_mem_cons.mp h
      rw [depth?_cons, deeper?_of_notMem hc, Option.bind_some, ih hcs]

/-- A text leads as deep from below more parentheses. -/
theorem depth?_add (h : depth? d cs = some e) (k : Nat) : depth? (d + k) cs = some (e + k) := by
  induction cs generalizing d with
  | nil =>
      cases h
      rfl
  | cons c cs ih =>
      rw [depth?_cons] at h ⊢
      obtain ⟨m, hm, hrest⟩ := Option.bind_eq_some_iff.mp h
      have hstep : deeper? (d + k) c = some (m + k) := by
        unfold deeper? at hm ⊢
        grind
      rw [hstep, Option.bind_some, ih hrest]

theorem IsPart.depth? (h : IsPart cs) (d : Nat) : depth? d cs = some d := by
  have hadd := depth?_add h d
  rwa [Nat.zero_add] at hadd

/-- Parts with commas between them stay at a depth that is not zero. -/
theorem depth?_intercalate {parts : List (List Char)} (h : ∀ part ∈ parts, IsPart part) (d : Nat) :
    depth? (d + 1) ([','].intercalate parts) = some (d + 1) := by
  induction parts with
  | nil => rfl
  | cons part parts ih =>
      obtain ⟨hpart, hparts⟩ := List.forall_mem_cons.mp h
      cases parts with
      | nil => simpa using hpart.depth? (d + 1)
      | cons next parts =>
          have hcomma : deeper? (d + 1) ',' = some (d + 1) := rfl
          rw [List.intercalate_cons_cons, List.append_assoc, List.singleton_append, depth?_append,
            hpart.depth?, Option.bind_some, depth?_cons, hcomma, Option.bind_some, ih hparts]

theorem isPart_parentheses {parts : List (List Char)} (h : ∀ part ∈ parts, IsPart part)
    (hmore : IsPart more) : IsPart ('(' :: ([','].intercalate parts ++ ')' :: more)) := by
  have hopen : deeper? 0 '(' = some 1 := rfl
  have hclose : deeper? 1 ')' = some 0 := rfl
  rw [IsPart, depth?_cons, hopen, Option.bind_some, depth?_append, depth?_intercalate h,
    Option.bind_some, depth?_cons, hclose, Option.bind_some, hmore]

/-- Characters that nest nothing make no difference at the end of a part. -/
theorem isPart_append_iff (h : ∀ c ∈ more, c ∉ nestings) : IsPart (cs ++ more) ↔ IsPart cs := by
  have hsame : (fun e => depth? e more) = some := funext fun e => depth?_of_notMem h
  rw [IsPart, depth?_append, hsame, Option.bind_fun_some, IsPart]

/-- No part goes on behind a part with a comma. -/
theorem IsPart.eq_nil_of_append (h : IsPart cs) (hmore : IsPart (cs ++ more))
    (hcomma : ∀ c ∈ more.head?, c = ',') : more = [] := by
  cases more with
  | nil => rfl
  | cons c more =>
      obtain rfl := hcomma c rfl
      rw [IsPart, depth?_append, h, Option.bind_some, depth?_cons] at hmore
      cases hmore

theorem IsPart.eq_of_append {part other rest : List Char} (h : IsPart part) (h' : IsPart other)
    (heq : part ++ more = other ++ rest) (hmore : ∀ c ∈ more.head?, c = ',')
    (hrest : ∀ c ∈ rest.head?, c = ',') : part = other := by
  rcases List.append_eq_append_iff.mp heq with ⟨between, rfl, rfl⟩ | ⟨between, rfl, rfl⟩
  · have hnil := h.eq_nil_of_append h' fun c hc => hmore c (by
      rw [List.head?_append, Option.mem_def.mp hc]
      rfl)
    rw [hnil, List.append_nil]
  · have hnil := h'.eq_nil_of_append h fun c hc => hrest c (by
      rw [List.head?_append, Option.mem_def.mp hc]
      rfl)
    rw [hnil, List.append_nil]

/-- What stands behind the first of some parts. -/
def behindFirst (parts : List (List Char)) : List Char :=
  match parts with
  | [] => []
  | parts => ',' :: [','].intercalate parts

theorem intercalate_cons (part : List Char) (parts : List (List Char)) :
    [','].intercalate (part :: parts) = part ++ behindFirst parts := by
  cases parts with
  | nil => simp [behindFirst]
  | cons next parts => simp [behindFirst, List.intercalate_cons_cons]

theorem head?_behindFirst (parts : List (List Char)) :
    ∀ c ∈ (behindFirst parts).head?, c = ',' := by
  intro c hc
  cases parts with
  | nil => cases hc
  | cons next parts =>
      cases hc
      rfl

/-- Texts are taken apart into parts in one way. -/
theorem eq_of_intercalate_eq {parts others : List (List Char)} (hsome : parts ≠ [])
    (hsome' : others ≠ []) (h : ∀ part ∈ parts, IsPart part) (h' : ∀ part ∈ others, IsPart part)
    (heq : [','].intercalate parts = [','].intercalate others) : parts = others := by
  induction parts generalizing others with
  | nil => exact absurd rfl hsome
  | cons part parts ih =>
      obtain ⟨other, others, rfl⟩ := List.exists_cons_of_ne_nil hsome'
      obtain ⟨hpart, hparts⟩ := List.forall_mem_cons.mp h
      obtain ⟨hother, hothers⟩ := List.forall_mem_cons.mp h'
      rw [intercalate_cons, intercalate_cons] at heq
      obtain rfl := hpart.eq_of_append hother heq (head?_behindFirst parts)
        (head?_behindFirst others)
      have hbehind := List.append_cancel_left heq
      cases parts with
      | nil =>
          cases others with
          | nil => rfl
          | cons next others => cases hbehind
      | cons next parts =>
          cases others with
          | nil => cases hbehind
          | cons next' others =>
              rw [ih (List.cons_ne_nil _ _) (List.cons_ne_nil _ _) hparts hothers
                (List.cons.inj hbehind).2]

end Depth

section Texts

variable {c : Char} {cs word : List Char} {d : Nat} {t : TypeSyntax} {p : Parameter}

theorem isWord_of_mem_nestings (h : c ∈ nestings) : isWord c = false :=
  (by decide : ∀ c ∈ nestings, isWord c = false) c h

theorem depth?_of_isWord (h : ∀ c ∈ cs, isWord c = true) : depth? d cs = some d := by
  refine depth?_of_notMem fun c hc hmem => ?_
  have hword := h c hc
  rw [isWord_of_mem_nestings hmem] at hword
  cases hword

/-- Full names nest nothing. -/
theorem depth?_resolvedFrom (hword : ∀ c ∈ word, isWord c = true) :
    depth? d (resolvedFrom word cs) = depth? d cs := by
  induction cs generalizing word d with
  | nil => rw [resolvedFrom, depth?_of_isWord (TypeSyntax.isWord_of_mem_fullName hword), depth?_nil]
  | cons c cs ih =>
      rw [resolvedFrom]
      split
      next hc =>
        have hlonger : ∀ d ∈ word ++ [c], isWord d = true :=
          List.forall_mem_append.mpr ⟨hword, List.forall_mem_singleton.mpr hc⟩
        have hskip : depth? d [c] = some d :=
          depth?_of_isWord (List.forall_mem_singleton.mpr hc)
        rw [ih hlonger, ← List.singleton_append, depth?_append, hskip, Option.bind_some]
      next =>
        rw [depth?_append, depth?_of_isWord (TypeSyntax.isWord_of_mem_fullName hword),
          Option.bind_some, depth?_cons, depth?_cons]
        exact congrArg _ (funext fun e => ih (List.forall_mem_nil _))

theorem isPart_resolved (h : IsPart cs) : IsPart (resolved cs) := by
  rw [IsPart, resolved, depth?_resolvedFrom (List.forall_mem_nil _), h]

/-- The item of an array is a part as the array is. -/
theorem isPart_append_brackets_iff {digits : List Char}
    (h : ∀ c ∈ digits, Text.isDecimal c = true) :
    IsPart (cs ++ '[' :: (digits ++ [']'])) ↔ IsPart cs := by
  refine isPart_append_iff fun c hc hmem => ?_
  rcases List.mem_cons.mp hc with rfl | hc
  · exact absurd hmem (by decide)
  rcases List.mem_append.mp hc with hc | hc
  · have hnone := (by decide : ∀ c ∈ nestings, Text.isDecimal c = false) c hmem
    rw [h c hc] at hnone
    cases hnone
  · obtain rfl := List.mem_singleton.mp hc
    exact absurd hmem (by decide)

/-- The texts of types can stand between commas. -/
theorem isPart_print (h : t.WellFormed) : IsPart t.print := by
  induction h with
  | basic hsome hword hsizes =>
      refine depth?_of_isWord fun c hc => TypeSyntax.isWord_of_isAlphanum ?_
      exact TypeSyntax.isAlphanum_of_mem_basic (.basic hsome hword hsizes) hc
  | tuple hsome hcomponents ih =>
      rw [TypeSyntax.print, TypeSyntax.printEach_eq_map]
      exact isPart_parentheses (List.forall_mem_map.mpr ih) depth?_nil
  | array hitem ih =>
      exact (isPart_append_brackets_iff fun _ hc => isDecimal_of_mem_length hc).mpr ih
  | fixedArray hitem hlength ih =>
      exact (isPart_append_brackets_iff fun _ hc => isDecimal_of_mem_length hc).mpr ih

/-- The type texts of a parameter and of its components close the parentheses that they open, and
have commas only in these. -/
inductive Balanced : Parameter → Prop
  | mk {type : String} {name : Option Value} {components : List Parameter}
      (htype : IsPart type.toList) (hcomponents : ∀ p ∈ components, Balanced p) :
      Balanced (.mk type name components)

theorem Balanced.isPart_canonical (h : Balanced p) : IsPart p.canonical.toList := by
  induction h with
  | @mk type name components htype hcomponents ih =>
      cases htuple : Parameter.isTuple type with
      | true =>
          obtain ⟨rest, rfl⟩ := Text.exists_append_of_beginsWith htuple
          have hword : depth? 0 Parameter.tupleWord.toList = some 0 := by decide
          rw [String.toList_append, IsPart, depth?_append, hword, Option.bind_some] at htype
          rw [toList_canonical_tuple]
          exact isPart_parentheses (List.forall_mem_map.mpr ih) htype
      | false =>
          rw [Parameter.canonical, htuple]
          exact htype

end Texts

section Parts

variable {type : String} {name : Option Value} {components : List Parameter} {p : Parameter}
  {t : TypeSyntax} {abiType : AbiType} {cs inside : List Char}

theorem getLast?_print_tuple (components : List TypeSyntax) :
    (TypeSyntax.tuple components).print.getLast? = some ')' := by
  rw [TypeSyntax.print, ← List.cons_append, List.getLast?_append]
  rfl

theorem getLast?_append_brackets (cs inside : List Char) :
    (cs ++ '[' :: (inside ++ [']'])).getLast? = some ']' := by
  rw [← List.cons_append, ← List.append_assoc, List.getLast?_append]
  rfl

/-- Only arrays are written with a bracket at the end. -/
theorem exists_arrayOf_of_print (h : t.WellFormed)
    (hprint : t.print = cs ++ '[' :: (inside ++ [']'])) :
    ∃ item length?, t = .arrayOf item length? := by
  cases t with
  | basic word sizes =>
      have hbracket : '[' ∈ (TypeSyntax.basic word sizes).print := by simp [hprint]
      exact absurd (TypeSyntax.isAlphanum_of_mem_basic h hbracket) (by decide)
  | tuple components =>
      have hlast := getLast?_print_tuple components
      rw [hprint, getLast?_append_brackets] at hlast
      cases hlast
  | array item => exact ⟨item, none, rfl⟩
  | fixedArray item length => exact ⟨item, some length, rfl⟩

/-- Only tuples are written with parentheses at both ends. -/
theorem exists_tuple_of_print (h : t.WellFormed) (hprint : t.print = '(' :: (inside ++ [')'])) :
    ∃ components, t = .tuple components := by
  have hlast : t.print.getLast? = some ')' := by
    rw [hprint, ← List.cons_append, List.getLast?_append]
    rfl
  cases t with
  | basic word sizes =>
      have hparenthesis : '(' ∈ (TypeSyntax.basic word sizes).print := by simp [hprint]
      exact absurd (TypeSyntax.isAlphanum_of_mem_basic h hparenthesis) (by decide)
  | tuple components => exact ⟨components, rfl⟩
  | array item =>
      rw [TypeSyntax.print, lengthChars, getLast?_append_brackets] at hlast
      cases hlast
  | fixedArray item length =>
      rw [TypeSyntax.print, lengthChars, getLast?_append_brackets] at hlast
      cases hlast

/-- Texts that end in brackets without brackets in them are the same up to these. -/
theorem eq_of_append_brackets {more other : List Char} (h : '[' ∉ inside) (h' : '[' ∉ other)
    (heq : cs ++ '[' :: (inside ++ [']']) = more ++ '[' :: (other ++ [']'])) : cs = more := by
  have hnil {between a b : List Char} (ha : '[' ∉ a) (heq : '[' :: a = between ++ '[' :: b) :
      between = [] := by
    cases between with
    | nil => rfl
    | cons c between =>
        refine absurd ?_ ha
        rw [(List.cons.inj heq).2]
        exact List.mem_append_right _ List.mem_cons_self
  rw [← List.cons_append, ← List.append_assoc, ← List.cons_append, ← List.append_assoc] at heq
  have hfront := List.append_cancel_right heq
  rcases List.append_eq_append_iff.mp hfront with ⟨between, rfl, hrest⟩ | ⟨between, rfl, hrest⟩
  · rw [hnil h hrest, List.append_nil]
  · rw [hnil h' hrest, List.append_nil]

/-- The type as which a parameter is encoded, as far as it is a part of another. -/
def EncodedAs (p : Parameter) (abiType : AbiType) : Prop :=
  ∃ t, TypeSyntax.ofText? p.canonical = some t ∧ AbiType.ofSyntax? t = some abiType

theorem line_notMem_of_ofText?
    (h : TypeSyntax.ofText? (Parameter.canonical (.mk type name components)) = some t) :
    '\n' ∉ type.toList := by
  intro hline
  have hmem : '\n' ∈ (Parameter.canonical (.mk type name components)).toList :=
    mem_canonical hline (by decide)
  have hsign := TypeSyntax.isSign_of_ofChars? h '\n'
    (TypeSyntax.mem_resolved_of_mem (by decide) hmem)
  exact absurd hsign (by decide)

/-- The last array length of a parameter is that of the outermost arrays of its type. -/
theorem EncodedAs.exists_item {item : List Char} (hitem : arrayItem? type.toList = some item)
    (h : EncodedAs (.mk type name components) abiType) :
    ∃ itemType, (abiType = .array itemType ∨ ∃ length, abiType = .fixedArray itemType length) ∧
      EncodedAs (.mk (String.ofList item) name components) itemType := by
  obtain ⟨t, htext, htype⟩ := h
  have hline := line_notMem_of_ofText? htext
  obtain ⟨digits, hdigits, hdecimal⟩ := exists_of_arrayItem? hline hitem
  obtain rfl : type = String.ofList item ++ String.ofList ('[' :: (digits ++ [']'])) := by
    rw [← String.toList_inj, String.toList_append, String.toList_ofList, String.toList_ofList,
      hdigits]
  have hcanonical : Parameter.canonical (.mk (String.ofList item ++
      String.ofList ('[' :: (digits ++ [']']))) name components) = _ :=
    canonical_append (isTuple_append_bracket _ _)
  obtain ⟨hwell, hprint⟩ := TypeSyntax.ofChars?_eq_some_iff.mp htext
  rw [hcanonical, String.toList_append, String.toList_ofList, TypeSyntax.resolved_brackets]
    at hprint
  obtain ⟨itemSyntax, length?, rfl⟩ := exists_arrayOf_of_print hwell hprint.symm
  rw [TypeSyntax.print_arrayOf] at hprint
  have hnone : '[' ∉ resolved digits := by
    intro h
    have hmem := TypeSyntax.mem_of_mem_resolvedFrom (by decide) (List.forall_mem_nil _) h
    exact absurd (hdecimal _ hmem) (by decide)
  have hnumber : '[' ∉ (length?.map Numeral.digitsOf).getD [] := fun h =>
    absurd (isDecimal_of_mem_length h) (by decide)
  -- Both lengths are without brackets, so both texts are cut at the same one.
  have hfront := eq_of_append_brackets hnone hnumber hprint
  have hread : TypeSyntax.ofText? (Parameter.canonical (.mk (String.ofList item) name components)) =
      some itemSyntax :=
    TypeSyntax.ofChars?_eq_some_iff.mpr ⟨(TypeSyntax.wellFormed_arrayOf_iff.mp hwell).1, hfront⟩
  cases length? with
  | none =>
      obtain ⟨itemType, hitemType, rfl⟩ := Option.map_eq_some_iff.mp htype
      exact ⟨itemType, Or.inl rfl, itemSyntax, hread, hitemType⟩
  | some length =>
      obtain ⟨itemType, hitemType, rfl⟩ := Option.map_eq_some_iff.mp htype
      exact ⟨itemType, Or.inr ⟨length, rfl⟩, itemSyntax, hread, hitemType⟩

theorem Balanced.item {item : List Char} (hitem : arrayItem? type.toList = some item)
    (htype : EncodedAs (.mk type name components) abiType)
    (h : Balanced (.mk type name components)) :
    Balanced (.mk (String.ofList item) name components) := by
  obtain ⟨t, htext, -⟩ := htype
  obtain ⟨digits, hdigits, hdecimal⟩ := exists_of_arrayItem? (line_notMem_of_ofText? htext) hitem
  cases h with
  | mk hpart hcomponents =>
      refine .mk ?_ hcomponents
      rw [hdigits] at hpart
      rw [String.toList_ofList]
      exact (isPart_append_brackets_iff hdecimal).mp hpart

theorem forall₂_encodedAs {parts : List TypeSyntax} {types : List AbiType}
    (hprint : components.map (fun c => resolved c.canonical.toList) = parts.map TypeSyntax.print)
    (hwell : ∀ part ∈ parts, part.WellFormed) (htypes : AbiType.ofComponents? parts = some types) :
    List.Forall₂ EncodedAs components types := by
  induction parts generalizing components types with
  | nil =>
      obtain rfl := List.map_eq_nil_iff.mp hprint
      cases htypes
      exact .nil
  | cons part parts ih =>
      obtain ⟨component, components, rfl, hfirst, hmore⟩ := List.map_eq_cons_iff.mp hprint
      obtain ⟨hpart, hparts⟩ := List.forall_mem_cons.mp hwell
      obtain ⟨type, htype, hrest⟩ := Option.bind_eq_some_iff.mp htypes
      obtain ⟨others, hothers, heq⟩ := Option.bind_eq_some_iff.mp hrest
      cases heq
      have hread : TypeSyntax.ofText? component.canonical = some part :=
        TypeSyntax.ofChars?_eq_some_iff.mpr ⟨hpart, hfirst⟩
      exact .cons ⟨part, hread, htype⟩ (ih hmore hparts hothers)

/-- The components of a parameter are those of its type. -/
theorem EncodedAs.exists_components (hsome : components ≠ [])
    (hbalanced : ∀ p ∈ components, Balanced p)
    (h : EncodedAs (.mk Parameter.tupleWord name components) abiType) :
    ∃ types, abiType = .tuple types ∧ List.Forall₂ EncodedAs components types := by
  obtain ⟨t, htext, htype⟩ := h
  have hcanonical := toList_canonical_tuple "" name components
  rw [String.append_empty] at hcanonical
  obtain ⟨hwell, hprint⟩ := TypeSyntax.ofChars?_eq_some_iff.mp htext
  rw [hcanonical, TypeSyntax.resolved_parentheses, TypeSyntax.resolved_intercalate,
    List.map_map] at hprint
  obtain ⟨parts, rfl⟩ := exists_tuple_of_print hwell hprint.symm
  obtain ⟨types, htypes, rfl⟩ := Option.map_eq_some_iff.mp htype
  rw [TypeSyntax.print, TypeSyntax.printEach_eq_map] at hprint
  have hjoined := List.append_cancel_right (List.cons.inj hprint).2
  cases hwell with
  | tuple hparts hwell =>
      have hparts := eq_of_intercalate_eq (by simpa using hsome) (by simpa using hparts)
        (List.forall_mem_map.mpr fun c hc => isPart_resolved (hbalanced c hc).isPart_canonical)
        (List.forall_mem_map.mpr fun part hpart => isPart_print (hwell part hpart)) hjoined
      exact ⟨types, rfl, forall₂_encodedAs hparts hwell htypes⟩

end Parts

end ContractBench.Encoding
