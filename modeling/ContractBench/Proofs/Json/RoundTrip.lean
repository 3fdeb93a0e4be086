import ContractBench.Failure
import ContractBench.Proofs.Json.Numbers
import ContractBench.Proofs.Json.Printing
import ContractBench.Proofs.Text.Trimming
import Mathlib.Data.List.Nodup

/-! # Reading what is written

Values are read back from the JSON text that is written for them: null, truth values, whole numbers
that are not too long, texts, and lists and tables of such values. Of a text no two halves may stand
together as a pair, and the keys of a table are texts that differ from each other.
-/

namespace ContractBench.Json

/-- Texts of which no two halves form a pair. -/
def KeptText (v : Value) : Prop := ∃ ps, Unjoined ps ∧ v = .ofPoints ps

/-- The values that are read back from what is written for them. -/
inductive Kept : Value → Prop
  | null : Kept .null
  | bool (b : Bool) : Kept (.bool b)
  | int {i : Int} (h : (Numeral.digitsOf i.natAbs).length ≤ Numeral.longest) : Kept (.int i)
  | text {v : Value} (h : KeptText v) : Kept v
  | list {xs : List Value} (h : ∀ x ∈ xs, Kept x) : Kept (.list xs)
  | table {entries : List (Value × Value)} (hkeys : ∀ key ∈ Ordered.keys entries, KeptText key)
      (hdistinct : (Ordered.keys entries).Nodup) (h : ∀ entry ∈ entries, Kept entry.2) :
      Kept (.table entries)

theorem keptText (s : String) : KeptText (.text s) :=
  ⟨Text.points s, unjoined_points s, (Value.ofPoints_points s).symm⟩

theorem KeptText.kind_eq {v : Value} (h : KeptText v) : v.kind = .text := by
  obtain ⟨ps, -, rfl⟩ := h
  exact Value.kind_ofPoints ps

theorem Kept.isData {v : Value} (h : Kept v) : Value.IsData v := by
  induction h with
  | null | bool => exact .leaf trivial rfl
  | int h => exact .leaf h rfl
  | text h =>
      obtain ⟨ps, -, rfl⟩ := h
      exact Value.isData_ofPoints ps
  | list _ ih => exact ⟨trivial, ih⟩
  | table hkeys hdistinct _ ih =>
      exact ⟨⟨fun key hkey => (hkeys key hkey).kind_eq, hdistinct⟩, List.forall_mem_map.mpr ih⟩

section Fields

variable {fields : List (String × Value)}

theorem keys_ofFields (fields : List (String × Value)) :
    Ordered.keys (fields.map fun field => (Value.text field.1, field.2)) =
      (fields.map Prod.fst).map Value.text := by
  rw [Ordered.keys, List.map_map, List.map_map]
  rfl

theorem keptText_of_mem_keys {key : Value}
    (h : key ∈ Ordered.keys (fields.map fun field => (Value.text field.1, field.2))) :
    KeptText key := by
  rw [keys_ofFields] at h
  obtain ⟨name, -, rfl⟩ := List.mem_map.mp h
  exact keptText name

theorem nodup_keys (h : (fields.map Prod.fst).Nodup) :
    (Ordered.keys (fields.map fun field => (Value.text field.1, field.2))).Nodup := by
  rw [keys_ofFields]
  exact h.map fun _ _ heq => Value.text.inj heq

/-- Fields are kept if their names differ. -/
theorem kept_ofFields (hnames : (fields.map Prod.fst).Nodup)
    (h : ∀ field ∈ fields, Kept field.2) : Kept (Value.ofFields fields) := by
  refine .table (fun key hkey => keptText_of_mem_keys hkey) (nodup_keys hnames) ?_
  intro entry hentry
  obtain ⟨field, hfield, rfl⟩ := List.mem_map.mp hentry
  exact h field hfield

/-- Fields with data are data if their names differ. -/
theorem isData_ofFields (hnames : (fields.map Prod.fst).Nodup)
    (h : ∀ field ∈ fields, Value.IsData field.2) : Value.IsData (Value.ofFields fields) := by
  refine ⟨⟨fun key hkey => (keptText_of_mem_keys hkey).kind_eq, nodup_keys hnames⟩, ?_⟩
  exact List.forall_mem_map.mpr (List.forall_mem_map.mpr h)

end Fields

section Texts

variable {ps : List Nat}

theorem writePoints_of_not_half (h : ∀ n ∈ ps, Text.isHalf n = false) :
    writeString (ps.map Text.charOf) = writePoints ps := by
  have hflat : (ps.map Text.charOf).flatMap writeChar = ps.flatMap writePoint := by
    rw [List.flatMap_map]
    apply List.flatMap_congr
    intro n hn
    simp [Text.charOf, writePoint, h n hn]
  rw [writeString, writePoints, hflat]

/-- A text is written by its code points, whether it is broken or not. -/
theorem write_ofPoints (ps : List Nat) :
    writeValue (.ofPoints ps) = .ok (writePoints ps) ∧
      writeKey (.ofPoints ps) = .ok (writePoints ps) := by
  unfold Value.ofPoints
  split
  next => exact ⟨rfl, rfl⟩
  next h =>
    have hwhole : ∀ n ∈ ps, Text.isHalf n = false := by simpa using h
    simp only [writeValue, writeKey, Text.ofPoints, String.toList_ofList,
      writePoints_of_not_half hwhole, and_self]

end Texts

section Steps

theorem readValue_quote (fuel : Nat) (ns : List Nat) :
    readValue (fuel + 1) (quote :: ns) = (do
      let (points, after) ← readString (quote :: ns) fuel ns
      return (.ofPoints points, after)) := rfl

theorem readValue_listStart (fuel : Nat) (ns : List Nat) :
    readValue (fuel + 1) (listStart :: ns) =
      match skipSpace ns with
      | listEnd :: after => .ok (.list [], after)
      | body => do
          let (xs, after) ← readItems fuel body
          return (.list xs, after) := rfl

theorem readValue_tableStart (fuel : Nat) (ns : List Nat) :
    readValue (fuel + 1) (tableStart :: ns) =
      match skipSpace ns with
      | tableEnd :: after => .ok (.table [], after)
      | body => do
          let (entries, after) ← readEntries fuel body
          return (.table (Ordered.ofEntries entries), after) := rfl

theorem readItems_succ (fuel : Nat) (ns : List Nat) :
    readItems (fuel + 1) ns = (do
      let (x, after) ← readValue fuel ns
      match skipSpace after with
      | comma :: more =>
          let (xs, after) ← readItems fuel (skipSpace more)
          return (x :: xs, after)
      | listEnd :: more => return ([x], more)
      | rest => .error (.malformed .noComma rest)) := rfl

/-- What is read of a table behind the name and the colon of an entry. -/
def readEntry (fuel : Nat) (key : List Nat) (ns : List Nat) :
    Except ReadError (List (Value × Value) × List Nat) := do
  let (x, after) ← readValue fuel ns
  match skipSpace after with
  | comma :: more =>
      let (entries, after) ← readEntries fuel (skipSpace more)
      return ((.ofPoints key, x) :: entries, after)
  | tableEnd :: more => return ([(.ofPoints key, x)], more)
  | rest => .error (.malformed .noComma rest)

theorem readEntries_name {fuel : Nat} {ns key more : List Nat}
    (h : readString (quote :: ns) fuel ns = .ok (key, colon :: more)) :
    readEntries (fuel + 1) (quote :: ns) = readEntry fuel key (skipSpace more) := by
  change (readString (quote :: ns) fuel ns >>= _) = _
  rw [h]
  rfl

end Steps

/-- The text that is written for a value, and that is read as this value wherever the value ends
behind it. -/
structure Written (v : Value) (cs : List Char) : Prop where
  writes : writeValue v = .ok cs
  opens : ∃ c ds, cs = c :: ds ∧ isSpace c.toNat = false ∧ c.toNat ≠ listEnd
  reads : ∀ fuel rest, cs.length ≤ fuel → Closes rest →
    readValue fuel (cs.map Char.toNat ++ rest) = .ok (v, rest)

section Plain

variable {ps : List Nat} {cs : List Char} {v : Value}

theorem skipSpace_of_opens (h : ∃ c ds, cs = c :: ds ∧ isSpace c.toNat = false ∧ c.toNat ≠ listEnd)
    (rest : List Nat) : skipSpace (cs.map Char.toNat ++ rest) = cs.map Char.toNat ++ rest := by
  obtain ⟨c, ds, rfl, hspace, -⟩ := h
  exact List.dropWhile_cons_of_neg (by simp [hspace])

theorem skipSpace_space (ns : List Nat) : skipSpace (0x20 :: ns) = skipSpace ns :=
  List.dropWhile_cons_of_pos rfl

theorem written_null : Written .null ['n', 'u', 'l', 'l'] where
  writes := by rw [writeValue]
  opens := ⟨'n', ['u', 'l', 'l'], rfl, by decide⟩
  reads := by
    intro fuel rest hfuel _
    cases fuel with
    | zero => cases hfuel
    | succ fuel => rfl

theorem written_bool (b : Bool) :
    Written (.bool b) (if b then ['t', 'r', 'u', 'e'] else ['f', 'a', 'l', 's', 'e']) where
  writes := by rw [writeValue]
  opens := by cases b <;> exact ⟨_, _, rfl, by decide⟩
  reads := by
    intro fuel rest hfuel _
    cases fuel with
    | zero => cases b <;> cases hfuel
    | succ fuel => cases b <;> rfl

theorem written_int {i : Int} (h : (Numeral.digitsOf i.natAbs).length ≤ Numeral.longest) :
    Written (.int i) (Numeral.print i).toList where
  writes := by
    rw [writeValue, writeInt, Value.printInt, Numeral.print?, if_neg (Nat.not_lt.mpr h)]
    rfl
  opens := by
    have hall : ∀ c ∈ Numeral.signs, isSpace c.toNat = false ∧ c.toNat ≠ listEnd := by decide
    obtain ⟨c, cs, hcs, hc⟩ := exists_print i
    exact ⟨c, cs, hcs, hall c hc⟩
  reads := by
    intro fuel rest hfuel hrest
    cases fuel with
    | zero =>
        have hnone := List.length_eq_zero_iff.mp (Nat.le_zero.mp hfuel)
        exact absurd hnone (Numeral.print_ne_nil i)
    | succ fuel => exact readValue_print hrest h fuel

theorem readString_written (h : Unjoined ps) (rest : List Nat) {fuel : Nat}
    (hfuel : (writePoints ps).length ≤ fuel + 1) (opened : List Nat) :
    readString opened fuel ((ps.flatMap writePoint).map Char.toNat ++ quote :: rest) =
      .ok (ps, rest) := by
  have hlength := length_le_writePoints h.1
  simp only [writePoints, List.length_append, List.length_cons, List.length_nil] at hfuel
  exact readString_writePoints h opened rest (by omega)

theorem map_writePoints (ps rest : List Nat) :
    (writePoints ps).map Char.toNat ++ rest =
      quote :: ((ps.flatMap writePoint).map Char.toNat ++ quote :: rest) := by
  rw [writePoints, List.map_append, List.append_assoc]
  rfl

theorem written_text (h : Unjoined ps) : Written (.ofPoints ps) (writePoints ps) where
  writes := (write_ofPoints ps).1
  opens := ⟨'"', _, rfl, by decide⟩
  reads := by
    intro fuel rest hfuel _
    cases fuel with
    | zero => cases hfuel
    | succ fuel =>
        rw [map_writePoints, readValue_quote, readString_written h rest hfuel]
        rfl

end Plain

section Nested

/-- The text that is written for some items, and that is read as these up to the bracket. -/
structure WrittenItems (xs : List Value) (cs : List Char) : Prop where
  writes : writeItems xs = .ok cs
  opens : ∃ c ds, cs = c :: ds ∧ isSpace c.toNat = false ∧ c.toNat ≠ listEnd
  reads : ∀ fuel rest, cs.length < fuel →
    readItems fuel (cs.map Char.toNat ++ listEnd :: rest) = .ok (xs, rest)

theorem Written.item {x : Value} {cs : List Char} (h : Written x cs) : WrittenItems [x] cs where
  writes := h.writes
  opens := h.opens
  reads := by
    intro fuel rest hfuel
    cases fuel with
    | zero => cases hfuel
    | succ fuel =>
        have hread := h.reads fuel (listEnd :: rest) (Nat.le_of_lt_succ hfuel)
          (by rintro n ⟨⟩; decide)
        rw [readItems_succ, hread]
        rfl

/-- One more item is written with a comma and a space behind it. -/
theorem WrittenItems.cons {x y : Value} {ys : List Value} {cs ds : List Char} (hx : Written x cs)
    (h : WrittenItems (y :: ys) ds) : WrittenItems (x :: y :: ys) (cs ++ [',', ' '] ++ ds) where
  writes := by
    rw [writeItems, hx.writes, h.writes]
    · rfl
    · exact List.cons_ne_nil y ys
  opens := by
    obtain ⟨c, cs, rfl, hc⟩ := hx.opens
    exact ⟨c, _, rfl, hc⟩
  reads := by
    intro fuel rest hfuel
    cases fuel with
    | zero => cases hfuel
    | succ fuel =>
        have hpoints : (cs ++ [',', ' '] ++ ds).map Char.toNat ++ listEnd :: rest =
            cs.map Char.toNat ++ comma :: 0x20 :: (ds.map Char.toNat ++ listEnd :: rest) := by
          simp only [List.map_append, List.append_assoc]
          rfl
        simp only [List.length_append, List.length_cons, List.length_nil] at hfuel
        have hread := hx.reads fuel (comma :: 0x20 :: (ds.map Char.toNat ++ listEnd :: rest))
          (by omega) (by rintro n ⟨⟩; decide)
        rw [hpoints, readItems_succ, hread]
        change (do
          let (xs, after) ← readItems fuel (skipSpace (0x20 :: _))
          return (x :: xs, after)) = _
        rw [skipSpace_space, skipSpace_of_opens h.opens, h.reads fuel rest (by omega)]
        rfl

theorem exists_writtenItems {xs : List Value} (hne : xs ≠ [])
    (hwritten : ∀ x ∈ xs, ∃ cs, Written x cs) : ∃ cs, WrittenItems xs cs := by
  induction xs with
  | nil => exact absurd rfl hne
  | cons x xs ih =>
      obtain ⟨⟨cs, hcs⟩, hrest⟩ := List.forall_mem_cons.mp hwritten
      cases xs with
      | nil => exact ⟨cs, hcs.item⟩
      | cons y ys =>
          obtain ⟨ds, hds⟩ := ih (List.cons_ne_nil y ys) hrest
          exact ⟨_, hds.cons hcs⟩

theorem exists_written_list {xs : List Value} (hwritten : ∀ x ∈ xs, ∃ cs, Written x cs) :
    ∃ cs, Written (.list xs) cs := by
  by_cases hne : xs = []
  · subst hne
    refine ⟨['[', ']'], rfl, ⟨_, _, rfl, by decide⟩, fun fuel rest hfuel _ => ?_⟩
    cases fuel with
    | zero => cases hfuel
    | succ fuel => rfl
  · obtain ⟨cs, hcs⟩ := exists_writtenItems hne hwritten
    refine ⟨'[' :: cs ++ [']'], ?_, ⟨_, _, rfl, by decide⟩, fun fuel rest hfuel _ => ?_⟩
    · rw [writeValue, hcs.writes]
      rfl
    · cases fuel with
      | zero => cases hfuel
      | succ fuel =>
          have hpoints : ('[' :: cs ++ [']']).map Char.toNat ++ rest =
              listStart :: (cs.map Char.toNat ++ listEnd :: rest) := by
            rw [List.map_append, List.append_assoc]
            rfl
          simp only [List.length_append, List.length_cons, List.length_nil] at hfuel
          rw [hpoints, readValue_listStart, skipSpace_of_opens hcs.opens]
          have hread := hcs.reads fuel rest (by omega)
          obtain ⟨c, ds, rfl, -, hend⟩ := hcs.opens
          split
          next heq => exact absurd (List.cons.inj heq).1 hend
          next =>
            rw [hread]
            rfl

/-- The text that is written for some entries, and that is read as these up to the brace. -/
structure WrittenEntries (entries : List (Value × Value)) (cs : List Char) : Prop where
  writes : writeEntries entries = .ok cs
  opens : ∃ ds, cs = '"' :: ds
  reads : ∀ fuel rest, cs.length < fuel →
    readEntries fuel (cs.map Char.toNat ++ tableEnd :: rest) = .ok (entries, rest)

section Entries

variable {ps : List Nat} {x : Value} {cs : List Char}

/-- The name of an entry and its colon are read first; what is behind them depends on what
follows. -/
theorem readEntries_written (hps : Unjoined ps) (hx : Written x cs) {fuel : Nat}
    (hfuel : (writePoints ps).length ≤ fuel + 1) (rest : List Nat) :
    readEntries (fuel + 1) ((writePoints ps).map Char.toNat ++
        colon :: 0x20 :: (cs.map Char.toNat ++ rest)) =
      readEntry fuel ps (cs.map Char.toNat ++ rest) := by
  rw [map_writePoints, readEntries_name (readString_written hps _ hfuel _), skipSpace_space,
    skipSpace_of_opens hx.opens]

theorem Written.entry (hps : Unjoined ps) (hx : Written x cs) :
    WrittenEntries [(.ofPoints ps, x)] (writePoints ps ++ [':', ' '] ++ cs) where
  writes := by
    simp only [writeEntries, (write_ofPoints ps).2, hx.writes]
    rfl
  opens := ⟨_, rfl⟩
  reads := by
    intro fuel rest hfuel
    cases fuel with
    | zero => cases hfuel
    | succ fuel =>
        have hpoints : (writePoints ps ++ [':', ' '] ++ cs).map Char.toNat ++ tableEnd :: rest =
            (writePoints ps).map Char.toNat ++
              colon :: 0x20 :: (cs.map Char.toNat ++ tableEnd :: rest) := by
          simp only [List.map_append, List.append_assoc]
          rfl
        simp only [List.length_append, List.length_cons, List.length_nil] at hfuel
        have hread := hx.reads fuel (tableEnd :: rest) (by omega) (by rintro n ⟨⟩; decide)
        rw [hpoints, readEntries_written hps hx (by omega), readEntry, hread]
        rfl

/-- One more entry is written with a comma and a space behind it. -/
theorem WrittenEntries.cons {next : Value × Value} {others : List (Value × Value)}
    {ds : List Char} (hps : Unjoined ps) (hx : Written x cs)
    (h : WrittenEntries (next :: others) ds) :
    WrittenEntries ((.ofPoints ps, x) :: next :: others)
      (writePoints ps ++ [':', ' '] ++ cs ++ [',', ' '] ++ ds) where
  writes := by
    rw [writeEntries, (write_ofPoints ps).2, hx.writes, h.writes]
    · rfl
    · exact List.cons_ne_nil next others
  opens := ⟨_, rfl⟩
  reads := by
    intro fuel rest hfuel
    cases fuel with
    | zero => cases hfuel
    | succ fuel =>
        have hpoints : (writePoints ps ++ [':', ' '] ++ cs ++ [',', ' '] ++ ds).map Char.toNat ++
            tableEnd :: rest = (writePoints ps).map Char.toNat ++
              colon :: 0x20 :: (cs.map Char.toNat ++
                comma :: 0x20 :: (ds.map Char.toNat ++ tableEnd :: rest)) := by
          simp only [List.map_append, List.append_assoc]
          rfl
        simp only [List.length_append, List.length_cons, List.length_nil] at hfuel
        have hread := hx.reads fuel (comma :: 0x20 :: (ds.map Char.toNat ++ tableEnd :: rest))
          (by omega) (by rintro n ⟨⟩; decide)
        have hskip : skipSpace (0x20 :: (ds.map Char.toNat ++ tableEnd :: rest)) =
            ds.map Char.toNat ++ tableEnd :: rest := by
          obtain ⟨es, rfl⟩ := h.opens
          rfl
        rw [hpoints, readEntries_written hps hx (by omega), readEntry, hread]
        change (do
          let (entries, after) ← readEntries fuel (skipSpace (0x20 :: _))
          return ((Value.ofPoints ps, x) :: entries, after)) = _
        rw [hskip, h.reads fuel rest (by omega)]
        rfl

end Entries

theorem exists_writtenEntries {entries : List (Value × Value)} (hne : entries ≠ [])
    (hkeys : ∀ key ∈ Ordered.keys entries, KeptText key)
    (hwritten : ∀ entry ∈ entries, ∃ cs, Written entry.2 cs) :
    ∃ cs, WrittenEntries entries cs := by
  induction entries with
  | nil => exact absurd rfl hne
  | cons entry entries ih =>
      obtain ⟨key, x⟩ := entry
      obtain ⟨⟨cs, hcs⟩, hrest⟩ := List.forall_mem_cons.mp hwritten
      obtain ⟨⟨ps, hps, rfl⟩, hothers⟩ := List.forall_mem_cons.mp hkeys
      cases entries with
      | nil => exact ⟨_, hcs.entry hps⟩
      | cons next others =>
          obtain ⟨ds, hds⟩ := ih (List.cons_ne_nil next others) hothers hrest
          exact ⟨_, hds.cons hps hcs⟩

theorem exists_written_table {entries : List (Value × Value)}
    (hkeys : ∀ key ∈ Ordered.keys entries, KeptText key)
    (hdistinct : (Ordered.keys entries).Nodup)
    (hwritten : ∀ entry ∈ entries, ∃ cs, Written entry.2 cs) :
    ∃ cs, Written (.table entries) cs := by
  by_cases hne : entries = []
  · subst hne
    refine ⟨['\x7b', '\x7d'], rfl, ⟨_, _, rfl, by decide⟩, fun fuel rest hfuel _ => ?_⟩
    cases fuel with
    | zero => cases hfuel
    | succ fuel => rfl
  · obtain ⟨cs, hcs⟩ := exists_writtenEntries hne hkeys hwritten
    obtain ⟨ds, rfl⟩ := hcs.opens
    refine ⟨'\x7b' :: ('"' :: ds) ++ ['\x7d'], ?_, ⟨_, _, rfl, by decide⟩,
      fun fuel rest hfuel _ => ?_⟩
    · rw [writeValue, hcs.writes]
      rfl
    · cases fuel with
      | zero => cases hfuel
      | succ fuel =>
          have hpoints : ('\x7b' :: ('"' :: ds) ++ ['\x7d']).map Char.toNat ++ rest =
              tableStart :: (('"' :: ds).map Char.toNat ++ tableEnd :: rest) := by
            rw [List.map_append, List.append_assoc]
            rfl
          simp only [List.length_append, List.length_cons, List.length_nil] at hfuel
          have hread := hcs.reads fuel rest (by rw [List.length_cons]; omega)
          rw [hpoints, readValue_tableStart]
          change (do
            let (entries, after) ← readEntries fuel (('"' :: ds).map Char.toNat ++ tableEnd :: rest)
            return (Value.table (Ordered.ofEntries entries), after)) = _
          rw [hread]
          exact congrArg (fun found => Except.ok (Value.table found, rest))
            (Ordered.TextKeyed.ofEntries_eq ⟨fun key hkey => (hkeys key hkey).kind_eq, hdistinct⟩)

theorem exists_written {v : Value} (h : Kept v) : ∃ cs, Written v cs := by
  induction h with
  | null => exact ⟨_, written_null⟩
  | bool b => exact ⟨_, written_bool b⟩
  | int h => exact ⟨_, written_int h⟩
  | text h =>
      obtain ⟨ps, hps, rfl⟩ := h
      exact ⟨_, written_text hps⟩
  | list _ ih => exact exists_written_list ih
  | table hkeys hdistinct _ ih => exact exists_written_table hkeys hdistinct ih

end Nested

/-- Values are read back from the text that is written for them. -/
theorem exists_write_read {v : Value} (h : Kept v) :
    ∃ text, write v = .ok text ∧ read text = .ok v := by
  obtain ⟨cs, hcs⟩ := exists_written h
  refine ⟨String.ofList cs, ?_, ?_⟩
  · rw [write, hcs.writes]
    rfl
  · have hread := hcs.reads (2 * cs.length + 2) [] (by omega) nofun
    have hspace := skipSpace_of_opens hcs.opens []
    rw [List.append_nil] at hread hspace
    have hfirst : (cs.map Char.toNat).head? ≠ some orderMark := by
      intro hmark
      obtain ⟨c, hc, heq⟩ := List.mem_map.mp (List.mem_of_mem_head? hmark)
      have hprintable := prints_of_writeValue h.isData hcs.writes c hc
      simp only [isPrintable, heq] at hprintable
      cases hprintable
    rw [read, Text.points, String.toList_ofList, readPoints, if_neg hfirst, readAll, hspace,
      List.length_map, hread]
    rfl

/-- There are no blanks around a list that is written. -/
theorem trim_of_write_list {xs : List Value} {text : String} (h : write (.list xs) = .ok text) :
    Text.trim text.toList = text.toList ∧ text.toList ≠ [] := by
  obtain ⟨cs, hcs, rfl⟩ := map_eq_ok_iff.mp h
  rw [writeValue] at hcs
  obtain ⟨items, -, heq⟩ := bind_eq_ok_iff.mp hcs
  cases heq
  rw [String.toList_ofList]
  refine ⟨Text.trim_eq_self ?_ ?_, List.cons_ne_nil _ _⟩
  · rintro c ⟨⟩
    decide
  · rw [List.getLast?_concat]
    rintro c ⟨⟩
    decide

/-- What is written for a value is read as the value. -/
theorem read_of_write {v : Value} {text : String} (h : Kept v) (hwrite : write v = .ok text) :
    read text = .ok v := by
  obtain ⟨other, hother, hread⟩ := exists_write_read h
  obtain rfl : text = other := Except.ok.inj (hwrite.symm.trans hother)
  exact hread

end ContractBench.Json
