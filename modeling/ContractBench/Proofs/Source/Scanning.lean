import ContractBench.Source.Scan

/-! # Scans of texts in parts

A scan of a text goes through its parts one after the other: where no directive begins within a
part, the part is kept as it stands, and a directive that is recognised is taken whole. What
follows a part matters to both, as a directive may reach into it.
-/

namespace ContractBench.Source

variable {α : Type} {recognise : Recogniser α}

/-- The character in front of what follows a text. -/
def lastOf (before : Option Char) (cs : List Char) : Option Char := cs.getLast?.or before

@[simp] theorem lastOf_nil (before : Option Char) : lastOf before [] = before := rfl

@[simp] theorem lastOf_cons (before : Option Char) (c : Char) (cs : List Char) :
    lastOf before (c :: cs) = lastOf (some c) cs := by
  cases cs with
  | nil => rfl
  | cons d ds => simp [lastOf, List.getLast?_cons]

@[simp] theorem lastOf_append (before : Option Char) (xs ys : List Char) :
    lastOf before (xs ++ ys) = lastOf (lastOf before xs) ys := by
  induction xs generalizing before with
  | nil => rfl
  | cons x xs ih => simp [ih]

/-- No directive begins within a text, where the last argument follows it. -/
inductive Silent (recognise : Recogniser α) : Option Char → List Char → List Char → Prop
  | nil (before : Option Char) (tail : List Char) : Silent recognise before [] tail
  | cons {before : Option Char} {c : Char} {cs tail : List Char}
      (hhere : recognise before (c :: (cs ++ tail)) = none)
      (hrest : Silent recognise (some c) cs tail) : Silent recognise before (c :: cs) tail

@[simp] theorem silent_nil (before : Option Char) (tail : List Char) :
    Silent recognise before [] tail := .nil before tail

@[simp] theorem silent_cons_iff {before : Option Char} {c : Char} {cs tail : List Char} :
    Silent recognise before (c :: cs) tail ↔
      recognise before (c :: (cs ++ tail)) = none ∧ Silent recognise (some c) cs tail :=
  ⟨fun | .cons hhere hrest => ⟨hhere, hrest⟩, fun h => .cons h.1 h.2⟩

theorem silent_append_iff {before : Option Char} {xs ys tail : List Char} :
    Silent recognise before (xs ++ ys) tail ↔
      Silent recognise before xs (ys ++ tail) ∧ Silent recognise (lastOf before xs) ys tail := by
  induction xs generalizing before with
  | nil => simp
  | cons x xs ih => simp [ih, and_assoc]

theorem scanFrom_eq_characters_append_iff {before : Option Char} {cs tail : List Char}
    {pieces : List (Piece α)} :
    scanFrom recognise before 0 (cs ++ tail) = cs.map Piece.character ++ pieces ↔
      Silent recognise before cs tail ∧
        scanFrom recognise (lastOf before cs) 0 tail = pieces := by
  induction cs generalizing before with
  | nil => simp
  | cons c cs ih =>
      cases hfound : recognise before (c :: (cs ++ tail)) with
      | none => simp [scanFrom, hfound, ih]
      | some found => simp [scanFrom, hfound]

theorem scanFrom_of_silent {before : Option Char} {cs tail : List Char}
    (h : Silent recognise before cs tail) :
    scanFrom recognise before 0 (cs ++ tail) =
      cs.map Piece.character ++ scanFrom recognise (lastOf before cs) 0 tail :=
  scanFrom_eq_characters_append_iff.mpr ⟨h, rfl⟩

theorem scanFrom_inside (before : Option Char) (raw rest : List Char) :
    scanFrom recognise before raw.length (raw ++ rest) =
      scanFrom recognise (lastOf before raw) 0 rest := by
  induction raw generalizing before with
  | nil => rfl
  | cons c cs ih => simpa [scanFrom] using ih (some c)

/-- A directive that is recognised is one piece, and the scan goes on behind it. -/
theorem scanFrom_of_recognised {before : Option Char} {raw rest : List Char} {meaning : α}
    (hne : raw ≠ []) (h : recognise before (raw ++ rest) = some (meaning, rest)) :
    scanFrom recognise before 0 (raw ++ rest) =
      .directive meaning raw :: scanFrom recognise (lastOf before raw) 0 rest := by
  obtain ⟨c, cs, rfl⟩ := List.exists_cons_of_ne_nil hne
  rw [List.cons_append] at h
  have hlength : (c :: (cs ++ rest)).length - rest.length = cs.length + 1 := by
    simp only [List.length_cons, List.length_append]
    omega
  rw [List.cons_append, scanFrom, h]
  simp only [hlength, List.take_succ_cons, List.take_left, Nat.add_sub_cancel, scanFrom_inside,
    lastOf_cons]

theorem filterMap_meaning_eq_nil_iff {before : Option Char} {cs : List Char} :
    (scanFrom recognise before 0 cs).filterMap Piece.meaning? = [] ↔
      Silent recognise before cs [] := by
  induction cs generalizing before with
  | nil => simp [scanFrom]
  | cons c cs ih =>
      cases hfound : recognise before (c :: cs) with
      | none => simpa [scanFrom, hfound, Piece.meaning?] using @ih (some c)
      | some found => simp [scanFrom, hfound, Piece.meaning?]

theorem meanings_eq_nil_iff {cs : List Char} :
    meanings recognise cs = [] ↔ Silent recognise none cs [] :=
  filterMap_meaning_eq_nil_iff

/-- A text is scanned as characters alone just where no directive begins. -/
theorem exists_scanFrom_eq_characters_iff {before : Option Char} {cs : List Char} :
    (∃ rest : List Char, scanFrom recognise before 0 cs = rest.map .character) ↔
      Silent recognise before cs [] := by
  constructor
  · rintro ⟨rest, hscan⟩
    rw [← filterMap_meaning_eq_nil_iff, hscan]
    induction rest with
    | nil => rfl
    | cons c rest ih => simp [Piece.meaning?]
  · intro h
    have hscan := scanFrom_of_silent h
    rw [List.append_nil] at hscan
    exact ⟨cs, by simpa [scanFrom] using hscan⟩

/-- A directive among the pieces of a text was recognised somewhere in it. -/
theorem exists_of_mem_scan {cs raw : List Char} {meaning : α}
    (h : .directive meaning raw ∈ scan recognise cs) :
    ∃ before found rest, recognise before found = some (meaning, rest) ∧
      raw = found.take (found.length - rest.length) := by
  have hall : ∀ before inside, .directive meaning raw ∈ scanFrom recognise before inside cs →
      ∃ before found rest, recognise before found = some (meaning, rest) ∧
        raw = found.take (found.length - rest.length) := by
    clear h
    induction cs with
    | nil => simp [scanFrom]
    | cons c cs ih =>
        intro before inside h
        cases inside with
        | succ inside => exact ih _ _ h
        | zero =>
            cases hfound : recognise before (c :: cs) with
            | none =>
                simp only [scanFrom, hfound, List.mem_cons, reduceCtorEq, false_or] at h
                exact ih _ _ h
            | some found =>
                obtain ⟨said, rest⟩ := found
                simp only [scanFrom, hfound, List.mem_cons, Piece.directive.injEq] at h
                obtain ⟨rfl, rfl⟩ | h := h
                · exact ⟨before, c :: cs, rest, hfound, rfl⟩
                · exact ih _ _ h
  exact hall none 0 h

end ContractBench.Source
