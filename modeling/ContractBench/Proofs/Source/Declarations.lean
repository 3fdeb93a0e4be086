import ContractBench.Proofs.Source.Forms

/-! # Declarations of a source

The names that a source declares at its top level, and the names that an import binds. A source is
read to tokens, without comments and with texts in quotes set aside; a name is declared where it
stands behind a word that declares one, outside of all braces.
-/

namespace ContractBench.Source

open Text (isBlank isWord)

section Running

variable {σ α β : Type}

/-- Runs a machine that answers each input with a list. -/
def runs (step : σ → α → List β × σ) : σ → List α → List β × σ
  | s, [] => ([], s)
  | s, a :: as =>
      let (answer, next) := step s a
      let (answers, last) := runs step next as
      (answer ++ answers, last)

@[simp] theorem runs_nil (step : σ → α → List β × σ) (s : σ) : runs step s [] = ([], s) := rfl

theorem runs_cons (step : σ → α → List β × σ) (s : σ) (a : α) (as : List α) :
    runs step s (a :: as) =
      ((step s a).1 ++ (runs step (step s a).2 as).1, (runs step (step s a).2 as).2) := rfl

theorem runs_append (step : σ → α → List β × σ) (s : σ) (xs ys : List α) :
    runs step s (xs ++ ys) =
      ((runs step s xs).1 ++ (runs step (runs step s xs).2 ys).1,
        (runs step (runs step s xs).2 ys).2) := by
  induction xs generalizing s with
  | nil => rfl
  | cons x xs ih => simp only [List.cons_append, runs_cons, ih, List.append_assoc]

end Running

section Tokens

/-- What a source is made of, apart from blanks and comments. -/
inductive Token where
  | word (cs : List Char)
  | sign (c : Char)
  /-- A text in quotes. -/
  | quoted
deriving DecidableEq, Repr

/-- Where in a source a reader is. -/
inductive Place where
  /-- Outside of comments and quotes, behind the beginning of a word or none. -/
  | outside (word : List Char)
  /-- Behind a slash, which may open a comment. -/
  | slash
  | line
  | block
  /-- In a block comment behind a star, which may close it. -/
  | star
  /-- In double quotes or in single ones. -/
  | quotes (double : Bool)
  /-- In quotes behind a backslash. -/
  | escape (double : Bool)
deriving DecidableEq, Repr

/-- The characters of words. -/
def isName (c : Char) : Bool := isWord c || c == '$'

/-- The word that ends here, if there is one. -/
def ended (word : List Char) : List Token := if word = [] then [] else [.word word]

/-- Reads a character outside of comments and quotes. -/
def readOpen (word : List Char) (c : Char) : List Token × Place :=
  if isName c then ([], .outside (word ++ [c]))
  else if isBlank c then (ended word, .outside [])
  else if c = '/' then (ended word, .slash)
  else if isQuote c then (ended word, .quotes (c == '"'))
  else (ended word ++ [.sign c], .outside [])

/-- Reads a character. -/
def readChar : Place → Char → List Token × Place
  | .outside word, c => readOpen word c
  | .slash, c =>
      if c = '/' then ([], .line)
      else if c = '*' then ([], .block)
      else (.sign '/' :: (readOpen [] c).1, (readOpen [] c).2)
  | .line, c => ([], if isLineEnd c then .outside [] else .line)
  | .block, c => ([], if c = '*' then .star else .block)
  | .star, c => ([], if c = '/' then .outside [] else if c = '*' then .star else .block)
  | .quotes double, c =>
      if isQuote c && (c == '"') == double then ([.quoted], .outside [])
      else ([], if c = '\\' then .escape double else .quotes double)
  | .escape double, _ => ([], .quotes double)

/-- The tokens of a text; the end of its last line ends the last word. -/
def tokens (cs : List Char) : List Token := (runs readChar (.outside []) (cs ++ ['\n'])).1

end Tokens

section Declarations

/-- The words behind which a name is declared. -/
def declaringWords : List String :=
  ["contract", "interface", "library", "struct", "enum", "function", "error", "event", "type",
    "constant"]

/-- How deep in braces a reader is, and whether a name that comes next is declared. -/
structure Level where
  depth : Nat := 0
  declaring : Bool := false
deriving DecidableEq, Repr

/-- Reads a token; the answer is the name that it declares. -/
def readToken (level : Level) : Token → List (List Char) × Level
  | .word cs =>
      if level.depth = 0 ∧ level.declaring then ([cs], { level with declaring := false })
      else ([], { level with declaring := declaringWords.any fun word => word.toList == cs })
  | .sign '\x7b' => ([], ⟨level.depth + 1, false⟩)
  | .sign '\x7d' => ([], ⟨level.depth - 1, false⟩)
  | _ => ([], { level with declaring := false })

/-- A reader of declarations. -/
structure Reading where
  place : Place := .outside []
  level : Level := {}
deriving DecidableEq, Repr

/-- A reader at the beginning of a source. -/
def Reading.top : Reading := {}

/-- Reads a character; the answer is the names that it declares. -/
def Reading.step (r : Reading) (c : Char) : List (List Char) × Reading :=
  let (found, place) := readChar r.place c
  let (names, level) := runs readToken r.level found
  (names, ⟨place, level⟩)

/-- Reads a text; the answer is the names that it declares. -/
def Reading.read (r : Reading) (cs : List Char) : List (List Char) × Reading :=
  runs Reading.step r cs

/-- The names that a source declares at its top level, in order. -/
def declared (cs : List Char) : List (List Char) := (Reading.top.read (cs ++ ['\n'])).1

/-- A source is complete: at its end all comments, quotes and braces are closed, and no name is
awaited. -/
def Complete (cs : List Char) : Prop := (Reading.top.read (cs ++ ['\n'])).2 = Reading.top

instance (cs : List Char) : Decidable (Complete cs) := inferInstanceAs (Decidable (_ = _))

end Declarations

section Bindings

/-- A name that an import binds, for a symbol of the file that it leads to or for the whole file. -/
structure Binding where
  name : List Char
  symbol : Option (List Char)
deriving DecidableEq, Repr

/-- The names for the symbols between braces. -/
def symbolBindings : List Token → List Binding
  | .word symbol :: .word ['a', 's'] :: .word name :: rest =>
      ⟨name, some symbol⟩ :: symbolBindings rest
  | .word symbol :: rest => ⟨symbol, some symbol⟩ :: symbolBindings rest
  | .sign ',' :: rest => symbolBindings rest
  | _ => []

/-- The names that an import binds, by its tokens. -/
def bindingsOf : List Token → List Binding
  | .word _ :: .sign '\x7b' :: rest => symbolBindings rest
  | [.word _, .sign '*', .word ['a', 's'], .word name, .word _, .quoted, .sign ';'] =>
      [⟨name, none⟩]
  | [.word _, .quoted, .word ['a', 's'], .word name, .sign ';'] => [⟨name, none⟩]
  | _ => []

example : bindingsOf (tokens "import \x7bA, B as N\x7d from \"x\";".toList) =
    [⟨['A'], some ['A']⟩, ⟨['N'], some ['B']⟩] := by decide +kernel

end Bindings

section Blanks

variable {c : Char}

theorem isName_of_isBlank (h : isBlank c = true) : isName c = false := by
  have hne : c ≠ '$' := by
    rintro rfl
    cases h
  simp [isName, Text.isWord_of_isBlank h, hne]

theorem readOpen_of_isBlank (h : isBlank c = true) (word : List Char) :
    readOpen word c = (ended word, .outside []) := by
  simp [readOpen, isName_of_isBlank h, h]

/-- A blank in front of the end of a line makes no difference. -/
theorem runs_readChar_blank (h : isBlank c = true) (place : Place) :
    runs readChar place [c, '\n'] = runs readChar place ['\n'] := by
  have hbreak : isBlank '\n' = true := by decide
  have hslash : c ≠ '/' := by rintro rfl; cases h
  have hstar : c ≠ '*' := by rintro rfl; cases h
  have hback : c ≠ '\\' := by rintro rfl; cases h
  have hquote : isQuote c = false := by
    have hdouble : c ≠ '"' := by rintro rfl; cases h
    have hsingle : c ≠ '\'' := by rintro rfl; cases h
    simp [isQuote, hdouble, hsingle]
  cases place with
  | outside word =>
      simp [runs_cons, readChar, readOpen_of_isBlank h, readOpen_of_isBlank hbreak, ended]
  | slash =>
      simp [runs_cons, readChar, readOpen_of_isBlank h, readOpen_of_isBlank hbreak, ended, hslash,
        hstar]
  | line =>
      cases hend : isLineEnd c <;>
        simp [runs_cons, readChar, readOpen_of_isBlank hbreak, ended, hend,
          show isLineEnd '\n' = true by decide]
  | block => simp [runs_cons, readChar, hstar]
  | star => simp [runs_cons, readChar, hslash, hstar]
  | quotes double =>
      simp [runs_cons, readChar, hquote, hback, show isQuote '\n' = false by decide]
  | escape double =>
      simp [runs_cons, readChar, show isQuote '\n' = false by decide]

end Blanks

namespace Reading

theorem read_append (r : Reading) (xs ys : List Char) :
    r.read (xs ++ ys) =
      ((r.read xs).1 ++ ((r.read xs).2.read ys).1, ((r.read xs).2.read ys).2) :=
  runs_append _ _ _ _

/-- A source is read to tokens, and these to declarations. -/
theorem read_eq (r : Reading) (cs : List Char) :
    r.read cs = ((runs readToken r.level (runs readChar r.place cs).1).1,
      ⟨(runs readChar r.place cs).2, (runs readToken r.level (runs readChar r.place cs).1).2⟩) := by
  induction cs generalizing r with
  | nil => rfl
  | cons c cs ih =>
      change ((r.step c).1 ++ ((r.step c).2.read cs).1, ((r.step c).2.read cs).2) = _
      rw [ih]
      simp only [runs_cons, step, runs_append]

theorem read_blank {c : Char} (h : isBlank c = true) (r : Reading) :
    r.read [c, '\n'] = r.read ['\n'] := by
  rw [read_eq, read_eq, runs_readChar_blank h]

theorem top_read_blank {c : Char} (h : isBlank c = true) : top.read [c] = ([], top) := by
  rw [read_eq]
  simp [top, runs_cons, readChar, readOpen_of_isBlank h, ended]

/-- Blanks at both ends of a source make no difference. -/
theorem read_trim (cs : List Char) :
    top.read (Text.trim cs ++ ['\n']) = top.read (cs ++ ['\n']) := by
  refine Text.apply_trim (fun cs => top.read (cs ++ ['\n'])) (fun c cs hblank => ?_)
    (fun c cs hblank => ?_) cs
  · have hcons := read_append top [c] (cs ++ ['\n'])
    rw [top_read_blank hblank] at hcons
    exact hcons
  · rw [List.append_assoc, List.singleton_append, read_append, read_blank hblank, ← read_append]

end Reading

end ContractBench.Source
