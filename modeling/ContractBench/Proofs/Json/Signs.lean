import ContractBench.Failure
import ContractBench.Json.Reader
import ContractBench.Text.Blank
import Mathlib.Data.List.TakeWhile

/-! # First signs

The first sign of a JSON text tells what it writes: a string, a list, a table, or something that
has no items.
-/

namespace ContractBench.Json

theorem isBlank_of_isSpace {c : Char} (h : isSpace c.toNat = true) : Text.isBlank c = true := by
  simp only [isSpace, Bool.or_eq_true, beq_iff_eq] at h
  simp only [Text.isBlank, Bool.or_eq_true, Bool.and_eq_true, decide_eq_true_eq, beq_iff_eq]
  omega

section Readers

variable {ns rest : List Nat} {v : Value}

/-- A number is whole, and not too long, or a double. -/
theorem readNumber_cases {start : List Nat} {negative : Bool}
    (h : readNumber start negative ns = .ok (v, rest)) :
    (∃ bits, v = .double bits) ∨
      ∃ whole after, wholeDigits? ns = some (whole, after) ∧ whole.length ≤ Numeral.longest ∧
        v = .int (Numeral.withSign negative (digitsValue whole)) := by
  unfold readNumber at h
  split at h
  next => cases h
  next whole after hwhole =>
    dsimp only at h
    split at h
    next =>
      split at h
      next => cases h
      next hlength =>
        cases h
        exact Or.inr ⟨whole, _, hwhole, Nat.le_of_not_lt hlength, rfl⟩
    next =>
      cases h
      exact Or.inl ⟨_, rfl⟩

/-- Where no string, list or table begins, a word or a number is read. -/
theorem readPlain_cases (h : readPlain ns = .ok (v, rest)) :
    v = .null ∨ (∃ b, v = .bool b) ∨ (∃ bits, v = .double bits) ∨
      ∃ start negative ms, readNumber start negative ms = .ok (v, rest) := by
  unfold readPlain at h
  split at h
  next found hword =>
    cases h
    obtain ⟨⟨name, value⟩, hmem, hvalue⟩ := List.exists_of_findSome?_eq_some hword
    obtain ⟨after, -, heq⟩ := Option.map_eq_some_iff.mp hvalue
    cases heq
    simp only [words, infinity, List.mem_cons, Prod.mk.injEq, List.not_mem_nil, or_false] at hmem
    rcases hmem with ⟨-, rfl⟩ | ⟨-, rfl⟩ | ⟨-, rfl⟩ | ⟨-, rfl⟩ | ⟨-, rfl⟩ | ⟨-, rfl⟩ <;> simp
  next =>
    refine Or.inr (Or.inr (Or.inr ?_))
    split at h <;> exact ⟨_, _, _, h⟩

/-- What is read at the front of a text, by its first sign. -/
inductive Begins (fuel : Nat) (ns rest : List Nat) : Value → Prop
  | text {ms : List Nat} (points : List Nat) (hsign : ns = quote :: ms) :
      Begins fuel ns rest (.ofPoints points)
  | list {ms : List Nat} {xs : List Value} (hsign : ns = listStart :: ms)
      (hitems : xs = [] ∨ ∃ body, readItems fuel body = .ok (xs, rest)) :
      Begins fuel ns rest (.list xs)
  | table {ms : List Nat} {entries : List (Value × Value)} (hsign : ns = tableStart :: ms)
      (hentries : entries = [] ∨ ∃ body, readEntries fuel body = .ok (entries, rest)) :
      Begins fuel ns rest (.table (Ordered.ofEntries entries))
  | plain {v : Value} (hsign : ∀ sign ∈ ns.head?, sign ∉ [quote, listStart, tableStart])
      (hplain : readPlain ns = .ok (v, rest)) : Begins fuel ns rest v

theorem begins_of_readValue {fuel : Nat} (h : readValue (fuel + 1) ns = .ok (v, rest)) :
    Begins fuel ns rest v := by
  unfold readValue at h
  split at h
  next =>
    obtain ⟨⟨points, after⟩, -, htext⟩ := bind_eq_ok_iff.mp h
    cases htext
    exact .text points rfl
  next =>
    split at h
    next =>
      cases h
      exact .list rfl (Or.inl rfl)
    next =>
      obtain ⟨⟨xs, after⟩, hitems, hlist⟩ := bind_eq_ok_iff.mp h
      cases hlist
      exact .list rfl (Or.inr ⟨_, hitems⟩)
  next =>
    split at h
    next =>
      cases h
      exact .table rfl (Or.inl rfl)
    next =>
      obtain ⟨⟨entries, after⟩, hentries, htable⟩ := bind_eq_ok_iff.mp h
      cases htable
      exact .table rfl (Or.inr ⟨_, hentries⟩)
  next hquote hlist htable =>
    refine .plain (fun sign hsign => ?_) h
    obtain ⟨ms, rfl⟩ := List.head?_eq_some_iff.mp hsign
    simp only [List.mem_cons, List.not_mem_nil, or_false, not_or]
    exact ⟨fun heq => hquote ms (heq ▸ rfl), fun heq => hlist ms (heq ▸ rfl),
      fun heq => htable ms (heq ▸ rfl)⟩

theorem exists_of_readAll (h : readAll ns = .ok v) :
    ∃ fuel after, readValue (fuel + 1) (skipSpace ns) = .ok (v, after) := by
  obtain ⟨⟨found, after⟩, hread, hrest⟩ := bind_eq_ok_iff.mp h
  dsimp only at hrest
  split at hrest
  next =>
    cases hrest
    exact ⟨_, after, hread⟩
  next => cases hrest

theorem readAll_of_read {text : String} (h : read text = .ok v) :
    readAll (Text.points text) = .ok v := by
  rw [read, readPoints] at h
  split at h
  next => cases h
  next => exact h

end Readers

/-- Words and numbers have no items. -/
theorem items_of_readPlain {ns rest : List Nat} {v : Value} (h : readPlain ns = .ok (v, rest)) :
    v.items = .error (.notIterable v.kind) := by
  obtain rfl | ⟨b, rfl⟩ | ⟨bits, rfl⟩ | ⟨start, negative, ms, hnumber⟩ := readPlain_cases h
  · rfl
  · rfl
  · rfl
  · obtain ⟨bits, rfl⟩ | ⟨whole, after, -, -, rfl⟩ := readNumber_cases hnumber <;> rfl

section First

variable {c : Char} {cs : List Char} {v : Value}

/-- A text that does not begin with a blank is read from its first sign on. -/
theorem exists_begins (hc : Text.isBlank c = false)
    (h : read (String.ofList (c :: cs)) = .ok v) :
    ∃ fuel rest, Begins fuel (c.toNat :: cs.map Char.toNat) rest v := by
  have hspace : isSpace c.toNat = false := by
    cases hspace : isSpace c.toNat with
    | false => rfl
    | true => exact absurd (isBlank_of_isSpace hspace) (by simp [hc])
  have hpoints : Text.points (String.ofList (c :: cs)) = c.toNat :: cs.map Char.toNat := by
    simp [Text.points]
  obtain ⟨fuel, rest, hread⟩ := exists_of_readAll (readAll_of_read h)
  rw [hpoints, skipSpace, List.dropWhile_cons_of_neg (by simp [hspace])] at hread
  exact ⟨fuel, rest, begins_of_readValue hread⟩

/-- A text that begins with a bracket writes a list. -/
theorem exists_list_of_read (h : read (String.ofList ('[' :: cs)) = .ok v) :
    ∃ xs, v = .list xs := by
  obtain ⟨fuel, rest, hbegins⟩ := exists_begins (by decide) h
  cases hbegins with
  | text points hsign => cases (List.cons.inj hsign).1
  | list => exact ⟨_, rfl⟩
  | table hsign => cases (List.cons.inj hsign).1
  | plain hsign => exact absurd (List.mem_cons_of_mem _ List.mem_cons_self) (hsign _ rfl)

/-- A text that begins with neither a quote nor a bracket nor a brace writes something that has no
items. -/
theorem items_of_read (hc : Text.isBlank c = false) (hquote : c ≠ '"') (hlist : c ≠ '[')
    (htable : c ≠ '\x7b') (h : read (String.ofList (c :: cs)) = .ok v) :
    v.items = .error (.notIterable v.kind) := by
  obtain ⟨fuel, rest, hbegins⟩ := exists_begins hc h
  -- Texts are read as numbers of characters.
  have hne (sign : Char) (h : c ≠ sign) : c.toNat ≠ sign.toNat :=
    fun heq => h (Char.toNat_inj.mp heq)
  cases hbegins with
  | text points hsign => exact absurd (List.cons.inj hsign).1 (hne '"' hquote)
  | list hsign => exact absurd (List.cons.inj hsign).1 (hne '[' hlist)
  | table hsign => exact absurd (List.cons.inj hsign).1 (hne '\x7b' htable)
  | plain _ hplain => exact items_of_readPlain hplain

/-- Only a text that begins with a bracket writes a list. -/
theorem exists_cons_of_readValue_list {fuel : Nat} {ns after : List Nat} {xs : List Value}
    (h : readValue (fuel + 1) ns = .ok (.list xs, after)) : ∃ rest, ns = listStart :: rest := by
  generalize hv : Value.list xs = v at h
  cases begins_of_readValue h with
  | text points => cases (Value.kind_ofPoints points).symm.trans (congrArg Value.kind hv.symm)
  | list hsign => exact ⟨_, hsign⟩
  | table => cases hv
  | plain _ hplain =>
      subst hv
      cases items_of_readPlain hplain

theorem head?_trimStart_of_read_list {s : String} {xs : List Value} (h : read s = .ok (.list xs)) :
    (Text.trimStart s.toList).head? = some '[' := by
  obtain ⟨fuel, after, hread⟩ := exists_of_readAll (readAll_of_read h)
  obtain ⟨rest, hrest⟩ := exists_cons_of_readValue_list hread
  rw [skipSpace, Text.points, List.dropWhile_map] at hrest
  obtain ⟨c, cs, hcs, hc, -⟩ := List.map_eq_cons_iff.mp hrest
  obtain rfl : c = '[' := Char.toNat_inj.mp hc
  have hsplit := List.takeWhile_append_dropWhile (p := isSpace ∘ Char.toNat) (l := s.toList)
  have hblank : ∀ c ∈ s.toList.takeWhile (isSpace ∘ Char.toNat), Text.isBlank c = true := by
    intro c hc
    have hspace : (isSpace ∘ Char.toNat) c = true := List.mem_takeWhile_imp hc
    exact isBlank_of_isSpace hspace
  rw [← hsplit, hcs, Text.trimStart, List.dropWhile_append_of_pos hblank,
    List.dropWhile_cons_of_neg (by decide)]
  rfl

end First

end ContractBench.Json
