/-! # Pieces of a text

Cutting a text at a separator, putting it together again, and replacing a part.
-/

namespace ContractBench.Text

/-- The parts of a text between the occurrences of a separator; there is always at least one. -/
def pieces {α : Type} [DecidableEq α] (sep : α) : List α → List (List α)
  | [] => [[]]
  | c :: cs =>
      if c = sep then
        [] :: pieces sep cs
      else
        match pieces sep cs with
        | [] => [[c]]
        | p :: ps => (c :: p) :: ps

/-- A text is cut at the same places after its characters are renamed, if no other character gets
the name of the separator. -/
theorem pieces_map {α β : Type} [DecidableEq α] [DecidableEq β] {f : α → β} {sep : α}
    (hsep : ∀ c, f c = f sep ↔ c = sep) (cs : List α) :
    pieces (f sep) (cs.map f) = (pieces sep cs).map (List.map f) := by
  induction cs with
  | nil => rfl
  | cons c cs ih =>
      simp only [List.map_cons, pieces, hsep, ih]
      split
      next => rfl
      next => cases pieces sep cs <;> rfl

/-- Texts written one after the other with a separator between them. -/
def joined (sep : String) (parts : List String) : String :=
  String.intercalate sep parts

/-- Removes every occurrence of a non-empty part, from the left. The first argument counts the
characters of an occurrence that are still to be passed over. -/
def erasingAux {α : Type} [DecidableEq α] (part : List α) : Nat → List α → List α
  | _, [] => []
  | skip + 1, _ :: cs => erasingAux part skip cs
  | 0, c :: cs =>
      if part ≠ [] ∧ part.isPrefixOf (c :: cs) then
        erasingAux part (part.length - 1) cs
      else
        c :: erasingAux part 0 cs

/-- The text after a leading part, if it begins with it. -/
def afterPrefix? {α : Type} [DecidableEq α] : List α → List α → Option (List α)
  | [], cs => some cs
  | _ :: _, [] => none
  | p :: ps, c :: cs => if p = c then afterPrefix? ps cs else none

def after? (lead text : String) : Option String :=
  (afterPrefix? lead.toList text.toList).map String.ofList

theorem afterPrefix?_append {α : Type} [DecidableEq α] (lead rest : List α) :
    afterPrefix? lead (lead ++ rest) = some rest := by
  induction lead with
  | nil => rfl
  | cons c cs ih => simpa [afterPrefix?] using ih

theorem eq_append_of_afterPrefix? {α : Type} [DecidableEq α] {lead text rest : List α}
    (h : afterPrefix? lead text = some rest) : text = lead ++ rest := by
  induction lead generalizing text with
  | nil => simpa [afterPrefix?] using h
  | cons c cs ih =>
      cases text with
      | nil => simp [afterPrefix?] at h
      | cons d ds =>
          simp only [afterPrefix?] at h
          split at h
          next heq => rw [heq, ih h, List.cons_append]
          next => cases h

theorem after?_append (lead rest : String) : after? lead (lead ++ rest) = some rest := by
  simp [after?, afterPrefix?_append]

theorem eq_append_of_after? {lead text rest : String} (h : after? lead text = some rest) :
    text = lead ++ rest := by
  obtain ⟨chars, hchars, rfl⟩ := Option.map_eq_some_iff.mp h
  rw [← String.toList_inj, String.toList_append, String.toList_ofList]
  exact eq_append_of_afterPrefix? hchars

def beginsWith (lead text : String) : Bool :=
  lead.toList.isPrefixOf text.toList

theorem beginsWith_iff {lead text : String} :
    beginsWith lead text = true ↔ lead.toList <+: text.toList :=
  List.isPrefixOf_iff_prefix

theorem exists_append_of_beginsWith {lead text : String} (h : beginsWith lead text = true) :
    ∃ rest, text = lead ++ rest := by
  obtain ⟨rest, hrest⟩ := beginsWith_iff.mp h
  refine ⟨String.ofList rest, ?_⟩
  rw [← String.toList_inj, String.toList_append, String.toList_ofList, hrest]

def hasPart (part : List Char) : List Char → Bool
  | [] => part.isEmpty
  | c :: cs => part.isPrefixOf (c :: cs) || hasPart part cs

/-- Letters of the Latin alphabet in lower case, other characters as they are. -/
def lowered (s : String) : String := s.map Char.toLower

end ContractBench.Text
