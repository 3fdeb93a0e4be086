import ContractBench.Proofs.Encoding.TypePrinting

/-! # Short names

The words of a type text are replaced by full names before it is read. So the text of a type is read
as that type under full names, and the other characters of a text stay where they are.
-/

namespace ContractBench.Encoding

open Text (isWord)

namespace TypeSyntax

section Words

variable {c : Char} {cs rest word : List Char}

/-- Words are resolved by themselves, up to the next character that is none of a word. -/
theorem resolvedFrom_append_cons (hc : isWord c = false) (word xs ys : List Char) :
    resolvedFrom word (xs ++ c :: ys) = resolvedFrom word xs ++ c :: resolvedFrom [] ys := by
  induction xs generalizing word with
  | nil => simp [resolvedFrom, hc]
  | cons x xs ih =>
      cases hx : isWord x <;> simp [resolvedFrom, hx, ih]

theorem resolvedFrom_nil : resolvedFrom [] [] = [] := by decide

theorem resolvedFrom_cons (hc : isWord c = false) (rest : List Char) :
    resolvedFrom [] (c :: rest) = c :: resolvedFrom [] rest := by
  have happend := resolvedFrom_append_cons hc [] [] rest
  rwa [resolvedFrom_nil] at happend

/-- What is no word character stays where full names are written. -/
theorem mem_resolved_of_mem (hc : isWord c = false) (h : c ∈ cs) : c ∈ resolved cs := by
  obtain ⟨xs, ys, rfl⟩ := List.append_of_mem h
  rw [resolved, resolvedFrom_append_cons hc]
  simp

theorem head?_resolved (hc : isWord c = false) (cs : List Char) :
    (resolved (c :: cs)).head? = some c := by
  rw [resolved, resolvedFrom_cons hc]
  rfl

/-- A word is resolved as a whole. -/
theorem resolved_word (hword : ∀ c ∈ word, isWord c = true) : resolved word = fullName word := by
  have hread (before : List Char) : resolvedFrom before word = fullName (before ++ word) := by
    induction word generalizing before with
    | nil => rw [List.append_nil, resolvedFrom]
    | cons c word ih =>
        obtain ⟨hc, hmore⟩ := List.forall_mem_cons.mp hword
        rw [resolvedFrom, if_pos hc, ih hmore, List.append_assoc]
        rfl
  exact hread []

/-- Parts of a text with commas between them are resolved by themselves. -/
theorem resolved_intercalate (parts : List (List Char)) :
    resolved ([','].intercalate parts) = [','].intercalate (parts.map resolved) := by
  induction parts with
  | nil => exact resolvedFrom_nil
  | cons part parts ih =>
      cases parts with
      | nil => simp
      | cons next parts =>
          have hsplit : resolved (part ++ ',' :: [','].intercalate (next :: parts)) =
              resolved part ++ ',' :: resolved ([','].intercalate (next :: parts)) :=
            resolvedFrom_append_cons (by decide) [] part _
          simp only [List.intercalate_cons_cons, List.map_cons, List.append_assoc,
            List.singleton_append] at ih hsplit ⊢
          rw [hsplit, ih]

theorem resolved_parentheses (cs rest : List Char) :
    resolved ('(' :: (cs ++ ')' :: rest)) = '(' :: (resolved cs ++ ')' :: resolved rest) := by
  rw [resolved, resolvedFrom_cons (by decide), resolvedFrom_append_cons (by decide)]
  rfl

theorem resolved_brackets (cs inside : List Char) :
    resolved (cs ++ '[' :: (inside ++ [']'])) =
      resolved cs ++ '[' :: (resolved inside ++ [']']) := by
  rw [resolved, resolvedFrom_append_cons (by decide), resolvedFrom_append_cons (by decide),
    resolvedFrom_nil]
  rfl

theorem isWord_of_mem_fullName (h : ∀ c ∈ word, isWord c = true) :
    ∀ c ∈ fullName word, isWord c = true := by
  unfold fullName
  split
  next name full hfind =>
    have hall : ∀ entry ∈ shortNames, ∀ c ∈ entry.2, isWord c = true := by decide +kernel
    exact hall (name, full) (List.mem_of_find?_eq_some hfind)
  next => exact h

/-- Where full names are written, no character appears but those of words. -/
theorem mem_of_mem_resolvedFrom (hc : isWord c = false) (hword : ∀ d ∈ word, isWord d = true)
    (h : c ∈ resolvedFrom word cs) : c ∈ cs := by
  have hnone {word : List Char} (hword : ∀ d ∈ word, isWord d = true) : c ∉ fullName word := by
    intro h
    rw [isWord_of_mem_fullName hword c h] at hc
    cases hc
  induction cs generalizing word with
  | nil => exact absurd h (hnone hword)
  | cons d cs ih =>
      rw [resolvedFrom] at h
      split at h
      next hd =>
        have hlonger : ∀ e ∈ word ++ [d], isWord e = true :=
          List.forall_mem_append.mpr ⟨hword, List.forall_mem_singleton.mpr hd⟩
        exact List.mem_cons_of_mem _ (ih hlonger h)
      next =>
        rcases List.mem_cons.mp ((List.mem_append.mp h).resolve_left (hnone hword)) with rfl | h
        · exact List.mem_cons_self
        · exact List.mem_cons_of_mem _ (ih (List.forall_mem_nil _) h)

/-- No short name has a digit in it. -/
theorem fullName_of_isDigit (hc : c ∈ word) (hdigit : c.isDigit = true) : fullName word = word := by
  have hletters : ∀ entry ∈ shortNames, ∀ c ∈ entry.1, c.isDigit = false := by decide
  have hnone : shortNames.find? (·.1 == word) = none := by
    rw [List.find?_eq_none]
    intro entry hentry heq
    have hletter := hletters entry hentry c (beq_iff_eq.mp heq ▸ hc)
    rw [hdigit] at hletter
    cases hletter
  rw [fullName, hnone]

theorem resolved_append_lengthChars (cs : List Char) (length? : Option Nat) :
    resolved (cs ++ lengthChars length?) = resolved cs ++ lengthChars length? := by
  have hdigits : resolved ((length?.map Numeral.digitsOf).getD []) =
      (length?.map Numeral.digitsOf).getD [] := by
    cases length? with
    | none => exact resolvedFrom_nil
    | some length =>
        have hall : ∀ c ∈ Numeral.digitsOf length, c.isDigit = true :=
          fun c hc => Numeral.isDigit_of_mem_digitsOf hc
        obtain ⟨d, ds, hds, hd⟩ := Numeral.exists_digitsOf length
        rw [Option.map_some, Option.getD_some,
          resolved_word fun c hc => isWord_of_isAlphanum (isAlphanum_of_isDigit (hall c hc)),
          fullName_of_isDigit (by rw [hds]; exact List.mem_cons_self) hd]
  rw [lengthChars, resolved_brackets, hdigits]

end Words

section FullNames

variable {type : TypeSyntax}

/-- The short names and what they stand for. -/
def shortTypes : List (String × String × Sizes) :=
  [("int", "int", .one 256), ("uint", "uint", .one 256), ("fixed", "fixed", .two 128 18),
    ("ufixed", "ufixed", .two 128 18), ("function", "bytes", .one 24), ("byte", "bytes", .one 1)]

/-- What a word with sizes stands for. Only a word alone can be a short name. -/
def fullBasic (word : String) (found : Sizes) : String × Sizes :=
  match found with
  | .none => ((shortTypes.find? (·.1 == word)).map (·.2)).getD (word, .none)
  | found => (word, found)

mutual

/-- A type under full names. -/
def full : TypeSyntax → TypeSyntax
  | basic word found => basic (fullBasic word found).1 (fullBasic word found).2
  | tuple components => tuple (fullEach components)
  | array item => array item.full
  | fixedArray item length => fixedArray item.full length

def fullEach : List TypeSyntax → List TypeSyntax
  | [] => []
  | component :: components => component.full :: fullEach components

end

theorem fullEach_eq_map (components : List TypeSyntax) :
    fullEach components = components.map full := by
  induction components with
  | nil => rfl
  | cons component components ih => rw [fullEach, ih, List.map_cons]

theorem isWord_of_mem_chars {found : Sizes} : ∀ c ∈ found.chars, isWord c = true := by
  have hdigits (n : Nat) : ∀ c ∈ Numeral.digitsOf n, isWord c = true := fun c hc =>
    isWord_of_isAlphanum (isAlphanum_of_isDigit (Numeral.isDigit_of_mem_digitsOf hc))
  cases found with
  | none => nofun
  | one n => exact hdigits n
  | two n m =>
      rw [Sizes.chars, List.forall_mem_append, List.forall_mem_cons]
      exact ⟨hdigits n, by decide, hdigits m⟩

theorem fullName_basic (word : String) (found : Sizes) :
    fullName (word.toList ++ found.chars) =
      (fullBasic word found).1.toList ++ (fullBasic word found).2.chars := by
  have hdigit (n : Nat) : ∃ c ∈ Numeral.digitsOf n, c.isDigit = true := by
    obtain ⟨d, ds, hds, hd⟩ := Numeral.exists_digitsOf n
    exact ⟨d, by rw [hds]; exact List.mem_cons_self, hd⟩
  cases found with
  | none =>
      have hnames : shortNames =
          shortTypes.map fun entry => (entry.1.toList, entry.2.1.toList ++ entry.2.2.chars) := by
        decide
      have hkey : ((·.1 == word.toList) ∘ fun entry : String × String × Sizes =>
          (entry.1.toList, entry.2.1.toList ++ entry.2.2.chars)) = (·.1 == word) := by
        funext entry
        rw [Function.comp_apply, Bool.eq_iff_iff, beq_iff_eq, beq_iff_eq, String.toList_inj]
      rw [Sizes.chars, List.append_nil, fullName, fullBasic, hnames, List.find?_map, hkey]
      cases shortTypes.find? (·.1 == word) with
      | none => simp [Sizes.chars]
      | some entry => rfl
  | one n =>
      obtain ⟨d, hd, hdigit⟩ := hdigit n
      exact fullName_of_isDigit (List.mem_append_right _ hd) hdigit
  | two n m =>
      obtain ⟨d, hd, hdigit⟩ := hdigit n
      exact fullName_of_isDigit (List.mem_append_right _ (List.mem_append_left _ hd)) hdigit

theorem WellFormed.full (h : type.WellFormed) : type.full.WellFormed := by
  induction h with
  | @basic word found hsome hword hsizes =>
      rw [TypeSyntax.full]
      unfold fullBasic
      split
      next =>
        cases hfind : shortTypes.find? (·.1 == word) with
        | none => exact .basic hsome hword hsizes
        | some entry =>
            have hall : ∀ entry ∈ shortTypes, entry.2.1.toList ≠ [] ∧
                (∀ c ∈ entry.2.1.toList, isLetter c = true) ∧ entry.2.2.Positive := by
              decide
            obtain ⟨hsome, hword, hsizes⟩ := hall entry (List.mem_of_find?_eq_some hfind)
            exact .basic hsome hword hsizes
      next => exact .basic hsome hword hsizes
  | tuple hsome hcomponents ih =>
      rw [TypeSyntax.full, fullEach_eq_map]
      exact .tuple (by simpa using hsome) (List.forall_mem_map.mpr ih)
  | array hitem ih => exact .array ih
  | fixedArray hitem hlength ih => exact .fixedArray ih hlength

/-- Resolving the words of a type text gives the text under full names. -/
theorem WellFormed.resolved_print (h : type.WellFormed) :
    resolved type.print = type.full.print := by
  induction h with
  | @basic word found hsome hword hsizes =>
      have hall : ∀ c ∈ word.toList ++ found.chars, isWord c = true :=
        List.forall_mem_append.mpr ⟨fun c hc =>
          isWord_of_isAlphanum (isAlphanum_of_isLetter (hword c hc)), isWord_of_mem_chars⟩
      rw [print, resolved_word hall, fullName_basic, TypeSyntax.full, print]
  | @tuple components hsome hcomponents ih =>
      have heach : (printEach components).map resolved = printEach (fullEach components) := by
        rw [printEach_eq_map, printEach_eq_map, fullEach_eq_map, List.map_map, List.map_map]
        exact List.map_congr_left ih
      rw [print, resolved_parentheses, resolved_intercalate, heach, TypeSyntax.full, print]
      rfl
  | array hitem ih => rw [print, resolved_append_lengthChars, ih, TypeSyntax.full, print]
  | fixedArray hitem hlength ih =>
      rw [print, resolved_append_lengthChars, ih, TypeSyntax.full, print]

/-- A type text is read under full names. -/
theorem WellFormed.ofText?_print (h : type.WellFormed) :
    ofText? (String.ofList type.print) = some type.full := by
  rw [ofText?, String.toList_ofList, h.resolved_print]
  exact ofChars?_eq_some_iff.mpr ⟨h.full, rfl⟩

end FullNames

end TypeSyntax

end ContractBench.Encoding
