import ContractBench.Proofs.Source.Declarations
import ContractBench.Proofs.Source.Rows
import Mathlib.Data.List.Infix

/-! # The grammar of directives

Directives as they are written: a licence in a line comment or a block comment, a compiler pragma,
and an import of a file, of the file under another name, of symbols of it, or of all of it under a
name. Between their words stand blanks of any number and kind. What makes up a source beside them is
prose, which holds neither the words of directives nor the mark of a licence.
-/

namespace ContractBench.Source

open Text (isBlank isWord afterPrefix?)

section Prose

variable {word cs : List Char}

theorem wordless_iff : Wordless word cs ↔
    ∀ rest ∈ cs.tails, ∀ c ∈ (afterPrefix? word rest).bind List.head?, isBlank c = false := by
  constructor
  · intro h rest hrest c hc
    obtain ⟨after, hafter, hhead⟩ := Option.bind_eq_some_iff.mp hc
    obtain ⟨more, rfl⟩ := List.head?_eq_some_iff.mp hhead
    rw [← Bool.not_eq_true]
    intro hblank
    apply h c hblank
    have hprefix : word ++ [c] <+: rest := ⟨more, by simp [Text.eq_append_of_afterPrefix? hafter]⟩
    exact hprefix.isInfix.trans ((List.mem_tails _ _).mp hrest).isInfix
  · rintro h c hblank ⟨front, more, rfl⟩
    have hsuffix : word ++ c :: more ∈ (front ++ (word ++ [c]) ++ more).tails :=
      (List.mem_tails _ _).mpr ⟨front, by simp⟩
    have hc := h _ hsuffix c (by simp [Text.afterPrefix?_append])
    simp [hblank] at hc

instance : Decidable (Wordless word cs) := decidable_of_iff' _ wordless_iff

/-- A text without the words of directives and without the mark of a licence. -/
structure Prose (cs : List Char) : Prop where
  importing : Wordless "import".toList cs
  pragma : Wordless "pragma".toList cs
  mark : ¬licenceMark <:+: cs

instance : Decidable (Prose cs) :=
  decidable_of_iff (Wordless "import".toList cs ∧ Wordless "pragma".toList cs ∧
    ¬licenceMark <:+: cs) ⟨fun ⟨himport, hpragma, hmark⟩ => ⟨himport, hpragma, hmark⟩,
      fun h => ⟨h.importing, h.pragma, h.mark⟩⟩

theorem Prose.undirected (h : Prose cs) : Undirected cs where
  licence before _ hlast := silent_licenceAt_of_lineLast h.mark hlast before
  pragma before _ hlast :=
    silent_of_lineLast opens_pragmaAt unblank_pragmaAt (by decide) h.pragma hlast before
  importing before _ hlast :=
    silent_of_lineLast opens_importAt unblank_importAt (by decide) h.importing hlast before

end Prose

section Texts

/-- A name of a symbol or of a file. -/
def IsIdentifier (cs : List Char) : Prop := cs ≠ [] ∧ ∀ c ∈ cs, isName c = true

/-- The words `as Name`, with the blanks in front of each. -/
structure NewName where
  gap : List Char
  inner : List Char
  name : List Char

/-- A symbol between braces, with the blanks around it. -/
structure Symbol where
  front : List Char
  name : List Char
  newName : Option NewName
  back : List Char

/-- What an import says in front of the path. -/
inductive Clause where
  | nothing
  | symbols (list : List Symbol) (gap inner : List Char)
  | whole (newName : NewName) (gap inner : List Char)

/-- An import. -/
structure Importing where
  gap : List Char
  clause : Clause
  opening : Char
  path : List Char
  closing : Char
  newName : Option NewName
  last : List Char

/-- A licence, in a block comment or in a line comment. -/
structure Licence where
  block : Bool
  gap : List Char
  lead : List Char
  name : List Char
  trail : List Char

/-- A directive. -/
inductive Directive where
  | licence (licence : Licence)
  | pragma (gap inner version : List Char)
  | importing (importing : Importing)

namespace NewName

def text (newName : NewName) : List Char :=
  newName.gap ++ 'a' :: 's' :: (newName.inner ++ newName.name)

/-- The text of a new name, if there is one. -/
def textOf : Option NewName → List Char
  | none => []
  | some newName => newName.text

structure Fits (newName : NewName) : Prop where
  gap : IsSpace newName.gap
  inner : IsSpace newName.inner
  name : IsIdentifier newName.name

end NewName

namespace Symbol

def text (symbol : Symbol) : List Char :=
  symbol.front ++ (symbol.name ++ (NewName.textOf symbol.newName ++ symbol.back))

/-- The text of symbols with commas between them. -/
def textOf : List Symbol → List Char
  | [] => []
  | [symbol] => symbol.text
  | symbol :: rest => symbol.text ++ ',' :: textOf rest

structure Fits (symbol : Symbol) : Prop where
  front : ∀ c ∈ symbol.front, isBlank c = true
  name : IsIdentifier symbol.name
  newName : ∀ newName ∈ symbol.newName, newName.Fits
  back : ∀ c ∈ symbol.back, isBlank c = true

end Symbol

namespace Clause

def text : Clause → List Char
  | nothing => []
  | symbols list gap inner =>
      '\x7b' :: (Symbol.textOf list ++ '\x7d' :: (gap ++ ("from".toList ++ inner)))
  | whole newName gap inner => '*' :: newName.text ++ (gap ++ ("from".toList ++ inner))

def Fits : Clause → Prop
  | nothing => True
  | symbols list gap inner => (∀ symbol ∈ list, symbol.Fits) ∧ IsSpace gap ∧ IsSpace inner
  | whole newName gap inner => newName.Fits ∧ IsSpace gap ∧ IsSpace inner

end Clause

namespace Importing

/-- What stands behind the path. -/
def finish (i : Importing) : List Char := NewName.textOf i.newName ++ (i.last ++ [';'])

def text (i : Importing) : List Char :=
  "import".toList ++ (i.gap ++ (i.clause.text ++ i.opening :: (i.path ++ i.closing :: i.finish)))

structure Fits (i : Importing) : Prop where
  gap : IsSpace i.gap
  clause : i.clause.Fits
  opening : isQuote i.opening = true
  path : i.path ≠ [] ∧ (∀ c ∈ i.path, isQuote c = false) ∧ Prose i.path
  closing : isQuote i.closing = true
  newName : ∀ newName ∈ i.newName, newName.Fits
  last : ∀ c ∈ i.last, isBlank c = true

end Importing

namespace Licence

def text (l : Licence) : List Char :=
  '/' :: (if l.block then '*' else '/') :: (l.gap ++ (licenceMark ++ (l.lead ++ (l.name ++
    (l.trail ++ if l.block then ['*', '/'] else [])))))

/-- What stands behind the name: blanks, and the end of a block comment. -/
def behindName (l : Licence) : List Char := l.trail ++ if l.block then ['*', '/'] else []

structure Fits (l : Licence) : Prop where
  gap : ∀ c ∈ l.gap, isGap c = true
  lead : ∀ c ∈ l.lead, isBlank c = true ∧ isLineEnd c = false
  name : l.name ≠ [] ∧ Text.trim l.name = l.name ∧ ∀ c ∈ l.name, isLineEnd c = false
  comment : ¬['*', '/'] <:+: l.name
  prose : Prose l.name
  trail : ∀ c ∈ l.trail, isBlank c = true ∧ isLineEnd c = false

end Licence

namespace Directive

def text : Directive → List Char
  | licence l => l.text
  | pragma gap inner version =>
      "pragma".toList ++ (gap ++ ("solidity".toList ++ (inner ++ (version ++ [';']))))
  | importing i => i.text

/-- What makes up a directive of the grammar. -/
def Fits : Directive → Prop
  | licence l => l.Fits
  | pragma gap inner version =>
      IsSpace gap ∧ IsSpace inner ∧ (∃ c ∈ version, isBlank c = false) ∧ ';' ∉ version ∧
        Prose version
  | importing i => i.Fits

/-- The name of a licence. -/
def licence? : Directive → Option String
  | licence l => some (String.ofList l.name)
  | _ => none

/-- The text of a pragma. -/
def pragma? : Directive → Option String
  | d@(pragma _ _ _) => some (String.ofList d.text)
  | _ => none

/-- The path of an import. -/
def path? : Directive → Option String
  | importing i => some (String.ofList i.path)
  | _ => none

/-- A directive as a part of a source. -/
def part : Directive → Part
  | licence l => .licence l.name l.text
  | d@(pragma _ _ _) => .pragma d.text
  | importing i => .importing (String.ofList i.path) i.text

end Directive

end Texts

section Licences

variable {l : Licence} {tail : List Char}

theorem infix_blanks_append_iff {part lead cs : List Char} (hne : part ≠ [])
    (hpart : ∀ c ∈ part, isBlank c = false) (hlead : ∀ c ∈ lead, isBlank c = true) :
    part <:+: lead ++ cs ↔ part <:+: cs := by
  induction lead with
  | nil => rfl
  | cons c lead ih =>
      have hnot : ¬part <+: c :: (lead ++ cs) := by
        intro hprefix
        obtain ⟨d, ds, rfl⟩ := List.exists_cons_of_ne_nil hne
        obtain ⟨rfl, -⟩ := List.cons_prefix_cons.mp hprefix
        simp [hlead d List.mem_cons_self] at hpart
      rw [List.cons_append, List.infix_cons_iff,
        ih fun d hd => hlead d (List.mem_cons_of_mem _ hd)]
      exact or_iff_right hnot

theorem infix_append_blanks_iff {part trail cs : List Char} (hne : part ≠ [])
    (hpart : ∀ c ∈ part, isBlank c = false) (htrail : ∀ c ∈ trail, isBlank c = true) :
    part <:+: cs ++ trail ↔ part <:+: cs := by
  rw [← List.reverse_infix, List.reverse_append, infix_blanks_append_iff (by simpa using hne)
    (by simpa using hpart) (by simpa using htrail), List.reverse_infix]

namespace Licence.Fits

theorem ne_nil (l : Licence) : l.text ≠ [] := List.cons_ne_nil _ _

/-- A licence is recognised up to the end of its line or of its comment. -/
theorem licenceAt_text (h : l.Fits) (htail : LineNext tail) (before : Option Char) :
    licenceAt before (l.text ++ tail) = some (l.name, tail) := by
  have hline : ∀ c ∈ l.lead ++ (l.name ++ l.trail), isLineEnd c = false := by
    intro c hc
    rcases List.mem_append.mp hc with hc | hc
    · exact (h.lead c hc).2
    · rcases List.mem_append.mp hc with hc | hc
      · exact h.name.2.2 c hc
      · exact (h.trail c hc).2
  have hlead : ∀ c ∈ l.lead, isBlank c = true := fun c hc => (h.lead c hc).1
  have htrail : ∀ c ∈ l.trail, isBlank c = true := fun c hc => (h.trail c hc).1
  have htrim : Text.trim (l.lead ++ (l.name ++ l.trail)) = l.name :=
    Text.trim_of_blanks_around hlead htrail h.name.1 h.name.2.1
  have hne : l.lead ++ (l.name ++ l.trail) ≠ [] := by simp [h.name.1]
  cases hblock : l.block with
  | false =>
      have hwhole := licenceAt_line h.gap hne hline htail before
      rw [htrim] at hwhole
      simpa [Licence.text, hblock] using hwhole
  | true =>
      have hclosed : ¬['*', '/'] <:+: l.lead ++ (l.name ++ l.trail) := by
        rw [infix_blanks_append_iff (by decide) (by decide) hlead,
          infix_append_blanks_iff (by decide) (by decide) htrail]
        exact h.comment
      have hwhole := licenceAt_block h.gap hline hclosed before tail
      rw [htrim] at hwhole
      simpa [Licence.text, hblock] using hwhole

/-- Behind the name stands a blank, the end of the comment or the end of the line, which are in no
word. -/
theorem notMem_of_mem_head? {word : List Char} (h : l.Fits) (htail : LineNext tail)
    (hword : ∀ c ∈ word, isBlank c = false ∧ c ≠ '*') :
    ∀ c ∈ (l.behindName ++ tail).head?, c ∉ word := by
  intro c hc hmem
  obtain ⟨hblank, hstar⟩ := hword c hmem
  rw [behindName] at hc
  cases htrail : l.trail with
  | cons d ds =>
      rw [htrail] at hc
      cases hc
      simp [(h.trail c (by simp [htrail])).1] at hblank
  | nil =>
      rw [htrail] at hc
      cases hblock : l.block with
      | true =>
          rw [hblock] at hc
          cases hc
          exact hstar rfl
      | false =>
          rw [hblock] at hc
          simp [isBlank_of_isLineEnd (htail c hc)] at hblank

section Silence

variable {α : Type} {recognise : Recogniser α} {word : List Char}

/-- No other directive begins within a licence if none begins within its name. -/
theorem silent_text (h : l.Fits) (hopens : Opens recognise word) (hunblank : Unblank recognise)
    (hclear : ∀ cs ∈ [['/', '/'], ['/', '*'], licenceMark, ['*', '/']], clear word cs = true)
    (hname : ∀ last, Silent recognise last l.name (l.behindName ++ tail)) (before : Option Char) :
    Silent recognise before l.text tail := by
  have hliteral {cs : List Char} (hcs : cs ∈ [['/', '/'], ['/', '*'], licenceMark, ['*', '/']])
      (last : Option Char) (rest : List Char) : Silent recognise last cs rest :=
    silent_of_clear hopens (hclear cs hcs) last rest
  have hgap : ∀ c ∈ l.gap, isBlank c = true := fun c hc => isBlank_of_isGap (h.gap c hc)
  have htext : l.text = ['/', if l.block then '*' else '/'] ++ (l.gap ++ (licenceMark ++ (l.lead ++
      (l.name ++ l.behindName)))) := rfl
  have hopening : ['/', if l.block then '*' else '/'] ∈
      [['/', '/'], ['/', '*'], licenceMark, ['*', '/']] := by
    cases l.block <;> simp
  rw [htext]
  simp only [silent_append_iff]
  refine ⟨hliteral hopening _ _, silent_of_blanks hunblank hgap _, hliteral (by simp) _ _,
    silent_of_blanks hunblank (fun c hc => (h.lead c hc).1) _, hname _, ?_⟩
  rw [behindName, silent_append_iff]
  refine ⟨silent_of_blanks hunblank (fun c hc => (h.trail c hc).1) _, ?_⟩
  cases l.block with
  | true => exact hliteral (by simp) _ _
  | false => exact .nil _ _

/-- No directive begins within the name of a licence that does not end with its word. -/
theorem silent_name (h : l.Fits) (hopens : Opens recognise word)
    (hword : ∀ c ∈ word, isBlank c = false ∧ c ≠ '*') (hname : Wordless word l.name)
    (hend : ¬word <:+ l.name) (htail : LineNext tail) (before : Option Char) :
    Silent recognise before l.name (l.behindName ++ tail) := by
  refine silent_of_wordless_next hopens hname (fun c hc => ⟨?_, Or.inr hend⟩) before
  exact h.notMem_of_mem_head? htail hword c hc

end Silence

/-- The end of a block comment makes no pragma of a name, even if that ends with its word. -/
theorem silent_pragmaAt_name (h : l.Fits) (hblock : l.block = true) (htail : LineNext tail)
    (before : Option Char) : Silent pragmaAt before l.name (l.behindName ++ tail) := by
  refine silent_pragmaAt_of_closed h.prose.pragma
    (h.notMem_of_mem_head? htail (by decide)) ?_ before
  have hbehind : l.behindName ++ tail = l.trail ++ '*' :: '/' :: tail := by
    simp [behindName, hblock]
  rw [hbehind, List.dropWhile_append_of_pos fun c hc => (h.trail c hc).1]
  rintro c ⟨⟩
  decide

end Licence.Fits

end Licences

section Pragmas

variable {gap inner version tail : List Char}

/-- Without a colon there is no mark of a licence. -/
theorem unmarked_of_notMem {cs : List Char} (h : ':' ∉ cs) : ¬licenceMark <:+: cs :=
  fun hmark => h (hmark.subset (by decide))

theorem notMem_of_blanks {c : Char} {cs : List Char} (hc : isBlank c = false)
    (h : ∀ d ∈ cs, isBlank d = true) : c ∉ cs := by
  intro hmem
  simp [h c hmem] at hc

namespace Directive.Fits

theorem isPragma_text (h : (pragma gap inner version).Fits) :
    IsPragma (pragma gap inner version).text := by
  obtain ⟨hgap, hinner, ⟨c, hc, -⟩, hnone, -⟩ := h
  obtain ⟨w, ws, rfl⟩ := List.exists_cons_of_ne_nil hinner.1
  have hws : ';' ∉ ws := notMem_of_blanks (by decide) fun d hd =>
    hinner.2 d (List.mem_cons_of_mem _ hd)
  have hne : ws ++ version ≠ [] := by
    intro hnil
    rw [(List.append_eq_nil_iff.mp hnil).2] at hc
    cases hc
  exact ⟨gap, w, ws ++ version, hgap.1, hgap.2, hinner.2 w List.mem_cons_self, hne, by simp [*],
    by simp [text]⟩

/-- No import begins within a pragma. -/
theorem silent_importAt_pragma (h : (pragma gap inner version).Fits) (before : Option Char) :
    Silent importAt before (pragma gap inner version).text tail := by
  obtain ⟨hgap, hinner, -, -, hprose⟩ := h
  simp only [text, silent_append_iff]
  refine ⟨silent_importAt_of_clear (by decide) _ _, silent_of_blanks unblank_importAt hgap.2 _,
    silent_importAt_of_clear (by decide) _ _, silent_of_blanks unblank_importAt hinner.2 _, ?_,
    silent_importAt_of_clear (by decide) _ _⟩
  apply silent_of_wordless_next opens_importAt hprose.importing
  rintro c ⟨⟩
  exact ⟨by decide, Or.inl (by decide)⟩

/-- No licence begins within a pragma. -/
theorem silent_licenceAt_pragma (h : (pragma gap inner version).Fits) (htail : LineNext tail)
    (before : Option Char) : Silent licenceAt before (pragma gap inner version).text tail := by
  obtain ⟨hgap, hinner, -, -, hprose⟩ := h
  apply silent_licenceAt_of_unmarked ?_ htail
  obtain ⟨ws, w, rfl⟩ := (List.eq_nil_or_concat' inner).resolve_left hinner.1
  have hw : w ∉ licenceMark := notMem_licenceMark_of_isBlank (hinner.2 w (by simp))
  have hwords : ':' ∉ "pragma".toList ++ (gap ++ ("solidity".toList ++ ws)) := by
    have hgapColon : ':' ∉ gap := notMem_of_blanks (by decide) hgap.2
    have hwsColon : ':' ∉ ws := notMem_of_blanks (by decide) fun d hd =>
      hinner.2 d (List.mem_append_left _ hd)
    simp [hgapColon, hwsColon]
  have htext : (pragma gap (ws ++ [w]) version).text =
      "pragma".toList ++ (gap ++ ("solidity".toList ++ ws)) ++ w :: (version ++ ';' :: []) := by
    simp [text]
  rw [htext, infix_append_cons_iff hw, infix_append_cons_iff (by decide)]
  rintro (hmark | hmark | hmark)
  · exact unmarked_of_notMem hwords hmark
  · exact hprose.mark hmark
  · exact unmarked_of_notMem (by simp) hmark

end Directive.Fits

end Pragmas

end ContractBench.Source
