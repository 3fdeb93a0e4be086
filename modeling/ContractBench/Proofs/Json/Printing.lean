import ContractBench.Proofs.Json.Escapes
import ContractBench.Proofs.Numeral
import ContractBench.Proofs.Value.Parts

/-! # Printing data

All data can be written, whether the texts in them are broken or not, and what is written stands on
one line: it is printable ASCII throughout.
-/

namespace ContractBench.Json

open Value (IsData)

/-- Whether all of a text is printable. -/
def Prints (cs : List Char) : Prop := ∀ c ∈ cs, isPrintable c = true

instance (cs : List Char) : Decidable (Prints cs) := by
  unfold Prints
  infer_instance

section Signs

variable {cs ds : List Char}

theorem prints_append_iff : Prints (cs ++ ds) ↔ Prints cs ∧ Prints ds := List.forall_mem_append

theorem prints_of_signs (h : ∀ c ∈ cs, c ∈ Numeral.signs) : Prints cs := by
  have hall : Prints Numeral.signs := by decide
  exact fun c hc => hall c (h c hc)

theorem prints_toDigits (n : Nat) : Prints (Nat.toDigits 10 n) := by
  refine prints_of_signs fun c hc => Numeral.mem_signs_of_isDigit ?_
  exact Nat.isDigit_of_mem_toDigits (by decide) (by decide) hc

theorem prints_zeros (n : Nat) : Prints (List.replicate n '0') :=
  fun _ hc => List.eq_of_mem_replicate hc ▸ by decide

theorem prints_print (i : Int) : Prints (Numeral.print i).toList :=
  prints_of_signs fun _ => Numeral.mem_signs_of_mem_print

/-- The text of a decimal has digits in it, and besides at most a point and an exponent. -/
theorem prints_decimalText (digits : Nat) (exponent : Int) :
    Prints (Binary64.decimalText digits exponent).toList := by
  have hdigits := prints_toDigits digits
  have htake (n : Nat) : Prints ((Nat.toDigits 10 digits).take n) :=
    fun c hc => hdigits c (List.mem_of_mem_take hc)
  have hdrop (n : Nat) : Prints ((Nat.toDigits 10 digits).drop n) :=
    fun c hc => hdigits c (List.mem_of_mem_drop hc)
  have hpoint : Prints ".".toList := by decide
  unfold Binary64.decimalText
  dsimp only
  split
  next =>
    split
    next =>
      simp only [String.toList_append, String.toList_ofList, prints_append_iff]
      exact ⟨by decide, prints_zeros _, hdigits⟩
    next =>
      split
      next =>
        simp only [String.toList_append, String.toList_ofList, prints_append_iff]
        exact ⟨⟨hdigits, prints_zeros _⟩, by decide⟩
      next =>
        simp only [String.toList_append, String.toList_ofList, prints_append_iff]
        exact ⟨⟨htake _, hpoint⟩, hdrop _⟩
  next =>
    simp only [String.toList_append, String.toList_ofList, prints_append_iff]
    refine ⟨⟨⟨⟨htake _, ?_⟩, by decide⟩, by split <;> decide⟩, ?_⟩
    · split
      next => decide
      next =>
        simp only [String.toList_append, String.toList_ofList, prints_append_iff]
        exact ⟨hpoint, hdrop _⟩
    · split
      next => exact List.forall_mem_cons.mpr ⟨by decide, prints_toDigits _⟩
      next => exact prints_toDigits _

theorem prints_double (bits : UInt64) : Prints (Binary64.print bits).toList := by
  have hsign : Prints (if Binary64.isNegative bits then "-" else "").toList := by
    split <;> decide
  unfold Binary64.print
  dsimp only
  split
  next => decide
  next =>
    rw [String.toList_append, prints_append_iff]
    exact ⟨hsign, by decide⟩
  next n q _ =>
    generalize (if 0 ≤ q then (n.natAbs * Nat.pow 2 q.toNat, 1)
      else (n.natAbs, Nat.pow 2 (-q).toNat)) = scaled
    split
    · rw [String.toList_append, prints_append_iff]
      exact ⟨hsign, by decide⟩
    · rw [String.toList_append, prints_append_iff]
      exact ⟨hsign, prints_decimalText _ _⟩

end Signs

section Writing

variable {v : Value} {xs : List Value} {entries : List (Value × Value)}

/-- Whether something is written, and printable. -/
def Printed (written : Except Fault (List Char)) : Prop := ∃ cs, written = .ok cs ∧ Prints cs

theorem prints_writeDouble (bits : UInt64) : Prints (writeDouble bits) := by
  unfold writeDouble
  split
  next => decide
  next =>
    rw [prints_append_iff]
    exact ⟨by split <;> decide, by decide⟩
  next => exact prints_double bits

theorem prints_writeString (cs : List Char) : Prints (writeString cs) := by
  simp only [writeString, List.cons_append]
  refine List.forall_mem_cons.mpr ⟨by decide, prints_append_iff.mpr ⟨?_, by decide⟩⟩
  intro c hc
  obtain ⟨d, -, hc⟩ := List.mem_flatMap.mp hc
  exact (form_writeChar d).isPrintable c hc

theorem printed_writeItems (h : ∀ x ∈ xs, Printed (writeValue x)) : Printed (writeItems xs) := by
  induction xs with
  | nil => exact ⟨_, rfl, by decide⟩
  | cons x xs ih =>
      obtain ⟨⟨first, hfirst, hprints⟩, hrest⟩ := List.forall_mem_cons.mp h
      obtain ⟨rest, hrest, hothers⟩ := ih hrest
      cases xs with
      | nil => exact ⟨first, hfirst, hprints⟩
      | cons y ys =>
          refine ⟨first ++ [',', ' '] ++ rest, ?_, ?_⟩
          · rw [writeItems, hfirst, hrest]
            · rfl
            · exact List.cons_ne_nil y ys
          · simp only [prints_append_iff]
            exact ⟨⟨hprints, by decide⟩, hothers⟩

theorem printed_writeKey {key : Value} (h : key.kind = .text) : Printed (writeKey key) := by
  cases key with
  | text s => exact ⟨_, rfl, prints_writeString _⟩
  | brokenText ps => exact ⟨_, rfl, fun _ => isPrintable_of_mem_writePoints⟩
  | _ => cases h

theorem printed_writeEntries (hkeys : ∀ entry ∈ entries, entry.1.kind = .text)
    (h : ∀ entry ∈ entries, Printed (writeValue entry.2)) : Printed (writeEntries entries) := by
  induction entries with
  | nil => exact ⟨_, rfl, by decide⟩
  | cons entry entries ih =>
      obtain ⟨hkey, hkeys⟩ := List.forall_mem_cons.mp hkeys
      obtain ⟨⟨first, hfirst, hprints⟩, hrest⟩ := List.forall_mem_cons.mp h
      obtain ⟨name, hname, hnamed⟩ := printed_writeKey hkey
      obtain ⟨rest, hrest, hothers⟩ := ih hkeys hrest
      have hone : Prints (name ++ [':', ' '] ++ first) := by
        simp only [prints_append_iff]
        exact ⟨⟨hnamed, by decide⟩, hprints⟩
      cases entries with
      | nil =>
          refine ⟨name ++ [':', ' '] ++ first, ?_, hone⟩
          rw [writeEntries, hname, hfirst]
          rfl
      | cons other others =>
          refine ⟨name ++ [':', ' '] ++ first ++ [',', ' '] ++ rest, ?_, ?_⟩
          · rw [writeEntries, hname, hfirst, hrest]
            · rfl
            · exact List.cons_ne_nil other others
          · rw [prints_append_iff, prints_append_iff]
            exact ⟨⟨hone, by decide⟩, hothers⟩

/-- All data can be written, on one line. -/
theorem printed_writeValue (h : IsData v) : Printed (writeValue v) := by
  induction h with
  | @intro v h _ ih =>
      cases v with
      | null => exact ⟨_, by rw [writeValue], by decide⟩
      | bool b => exact ⟨_, by rw [writeValue], by cases b <;> decide⟩
      | double bits => exact ⟨_, by rw [writeValue], prints_writeDouble bits⟩
      | text s => exact ⟨_, by rw [writeValue], prints_writeString _⟩
      | brokenText ps => exact ⟨_, by rw [writeValue], fun _ => isPrintable_of_mem_writePoints⟩
      | int n =>
          have hlength : ¬Numeral.longest < (Numeral.digitsOf n.natAbs).length :=
            Nat.not_lt.mpr h
          refine ⟨(Numeral.print n).toList, ?_, prints_print n⟩
          rw [writeValue, writeInt, Value.printInt, Numeral.print?, if_neg hlength]
          rfl
      | list xs =>
          have hitems : ∀ x ∈ xs, Printed (writeValue x) := ih
          obtain ⟨cs, hcs, hprints⟩ := printed_writeItems hitems
          refine ⟨'[' :: cs ++ [']'], ?_, ?_⟩
          · rw [writeValue, hcs]
            rfl
          · rw [List.cons_append]
            exact List.forall_mem_cons.mpr
              ⟨by decide, prints_append_iff.mpr ⟨hprints, by decide⟩⟩
      | table entries =>
          have hvalues := List.forall_mem_map.mp ih
          obtain ⟨cs, hcs, hprints⟩ := printed_writeEntries (fun _ => h.kind_eq) hvalues
          refine ⟨'\x7b' :: cs ++ ['\x7d'], ?_, ?_⟩
          · rw [writeValue, hcs]
            rfl
          · rw [List.cons_append]
            exact List.forall_mem_cons.mpr
              ⟨by decide, prints_append_iff.mpr ⟨hprints, by decide⟩⟩
      | bytes | tuple | record => cases h

theorem prints_of_writeValue {cs : List Char} (h : IsData v) (hwrite : writeValue v = .ok cs) :
    Prints cs := by
  obtain ⟨other, hother, hprints⟩ := printed_writeValue h
  rwa [← Except.ok.inj (hother.symm.trans hwrite)]

end Writing

end ContractBench.Json
