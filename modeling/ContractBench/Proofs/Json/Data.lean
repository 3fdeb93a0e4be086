import ContractBench.Json.Encoded
import ContractBench.Proofs.Json.RoundTrip
import ContractBench.Proofs.Json.Signs
import ContractBench.Proofs.Value.Parts
import ContractBench.Service.Payload

/-! # Values that are read

Whatever a JSON text writes is data: its numbers are not too long, and the keys of its tables are
different texts.
-/

namespace ContractBench

namespace Json

open Value (IsData)

section Leaves

variable {ns whole rest : List Nat} {v : Value}

theorem digitsValue_lt {ds : List Nat} (h : ∀ d ∈ ds, isDigit d = true) :
    digitsValue ds < Nat.pow 10 ds.length := by
  induction ds using List.reverseRecOn with
  | nil => exact Nat.one_pos
  | append_singleton ds d ih =>
      obtain ⟨hdigits, hlast⟩ := List.forall_mem_append.mp h
      have hd : d < zero + 10 := by
        have hdigit := hlast d (List.mem_singleton_self d)
        simp only [isDigit, Bool.and_eq_true, decide_eq_true_eq] at hdigit
        exact hdigit.2
      have hvalue := ih hdigits
      rw [digitsValue, List.foldl_append, List.length_append, List.length_singleton]
      change digitsValue ds * 10 + (d - zero) < Nat.pow 10 ds.length * 10
      omega

theorem digits_of_wholeDigits? (h : wholeDigits? ns = some (whole, rest)) :
    whole ≠ [] ∧ ∀ d ∈ whole, isDigit d = true := by
  unfold wholeDigits? at h
  split at h
  next =>
    cases h
    exact ⟨List.cons_ne_nil _ _, by decide⟩
  next =>
    rw [List.span_eq_takeWhile_dropWhile] at h
    split at h
    next => cases h
    next hne heq =>
      cases h
      obtain ⟨rfl, -⟩ := Prod.mk.injEq .. ▸ heq
      exact ⟨hne, fun d hd => List.mem_takeWhile_imp hd⟩

theorem isData_of_readNumber {start : List Nat} {negative : Bool}
    (h : readNumber start negative ns = .ok (v, rest)) : IsData v := by
  obtain ⟨bits, rfl⟩ | ⟨whole, after, hwhole, hlength, rfl⟩ := readNumber_cases h
  · exact .leaf trivial rfl
  · obtain ⟨hne, hdigits⟩ := digits_of_wholeDigits? hwhole
    refine .leaf ?_ rfl
    have habs : (Numeral.withSign negative (digitsValue whole)).natAbs = digitsValue whole := by
      unfold Numeral.withSign
      split <;> simp
    change (Numeral.digitsOf (Numeral.withSign negative _).natAbs).length ≤ _
    rw [habs]
    exact Nat.le_trans
      (Numeral.length_digitsOf_le (List.length_pos_iff.mpr hne) (digitsValue_lt hdigits)) hlength

theorem isData_of_readPlain (h : readPlain ns = .ok (v, rest)) : IsData v := by
  obtain rfl | ⟨b, rfl⟩ | ⟨bits, rfl⟩ | ⟨start, negative, ms, hnumber⟩ := readPlain_cases h
  · exact .leaf trivial rfl
  · exact .leaf trivial rfl
  · exact .leaf trivial rfl
  · exact isData_of_readNumber hnumber

end Leaves

/-- A table is data if its entries were read as texts and data. -/
theorem isData_table {entries : List (Value × Value)}
    (h : ∀ entry ∈ entries, entry.1.kind = .text ∧ IsData entry.2) :
    IsData (.table (Ordered.ofEntries entries)) := by
  refine ⟨Ordered.textKeyed_ofEntries fun entry hentry => (h entry hentry).1, ?_⟩
  refine List.forall_mem_map.mpr fun entry hentry => ?_
  obtain ⟨key, hwritten⟩ := Ordered.exists_of_mem_ofEntries hentry
  exact (h _ hwritten).2

/-- What the three readers give with one fuel. -/
structure GiveData (fuel : Nat) : Prop where
  value : ∀ {ns rest v}, readValue fuel ns = .ok (v, rest) → IsData v
  items : ∀ {ns rest xs}, readItems fuel ns = .ok (xs, rest) → ∀ x ∈ xs, IsData x
  entries : ∀ {ns rest entries}, readEntries fuel ns = .ok (entries, rest) →
    ∀ entry ∈ entries, entry.1.kind = .text ∧ IsData entry.2

section Steps

variable {fuel : Nat} {ns rest : List Nat}

theorem isData_of_readValue_succ (ih : GiveData fuel) {v : Value}
    (h : readValue (fuel + 1) ns = .ok (v, rest)) : IsData v := by
  cases begins_of_readValue h with
  | text points => exact Value.isData_ofPoints points
  | list _ hitems =>
      refine ⟨trivial, ?_⟩
      obtain rfl | ⟨body, hread⟩ := hitems
      · exact List.forall_mem_nil _
      · exact ih.items hread
  | table _ hentries =>
      obtain rfl | ⟨body, hread⟩ := hentries
      · exact .leaf Ordered.textKeyed_nil rfl
      · exact isData_table (ih.entries hread)
  | plain _ hplain => exact isData_of_readPlain hplain

theorem isData_of_readItems_succ (ih : GiveData fuel) {xs : List Value}
    (h : readItems (fuel + 1) ns = .ok (xs, rest)) : ∀ x ∈ xs, IsData x := by
  rw [readItems_succ] at h
  obtain ⟨⟨x, after⟩, hvalue, hmore⟩ := bind_eq_ok_iff.mp h
  have hx : IsData x := ih.value hvalue
  dsimp only at hmore
  split at hmore
  next =>
    obtain ⟨⟨others, last⟩, hitems, hdone⟩ := bind_eq_ok_iff.mp hmore
    cases hdone
    exact List.forall_mem_cons.mpr ⟨hx, ih.items hitems⟩
  next =>
    cases hmore
    exact List.forall_mem_singleton.mpr hx
  next => cases hmore

theorem isData_of_readEntry (ih : GiveData fuel) {key : List Nat} {entries : List (Value × Value)}
    (h : readEntry fuel key ns = .ok (entries, rest)) :
    ∀ entry ∈ entries, entry.1.kind = .text ∧ IsData entry.2 := by
  obtain ⟨⟨x, after⟩, hvalue, hmore⟩ := bind_eq_ok_iff.mp h
  have hentry : (Value.ofPoints key).kind = .text ∧ IsData x :=
    ⟨Value.kind_ofPoints key, ih.value hvalue⟩
  dsimp only at hmore
  split at hmore
  next =>
    obtain ⟨⟨others, last⟩, hothers, hdone⟩ := bind_eq_ok_iff.mp hmore
    cases hdone
    exact List.forall_mem_cons.mpr ⟨hentry, ih.entries hothers⟩
  next =>
    cases hmore
    exact List.forall_mem_singleton.mpr hentry
  next => cases hmore

theorem isData_of_readEntries_succ (ih : GiveData fuel) {entries : List (Value × Value)}
    (h : readEntries (fuel + 1) ns = .ok (entries, rest)) :
    ∀ entry ∈ entries, entry.1.kind = .text ∧ IsData entry.2 := by
  unfold readEntries at h
  split at h
  next =>
    obtain ⟨⟨key, after⟩, -, hentry⟩ := bind_eq_ok_iff.mp h
    dsimp only at hentry
    split at hentry
    next => exact isData_of_readEntry ih hentry
    next => cases hentry
  next => cases h

end Steps

theorem giveData (fuel : Nat) : GiveData fuel := by
  induction fuel with
  | zero => exact ⟨nofun, nofun, nofun⟩
  | succ fuel ih =>
      exact ⟨isData_of_readValue_succ ih, isData_of_readItems_succ ih,
        isData_of_readEntries_succ ih⟩

section Texts

variable {ns : List Nat} {v : Value}

theorem isData_of_readAll (h : readAll ns = .ok v) : IsData v := by
  obtain ⟨fuel, after, hread⟩ := exists_of_readAll h
  exact (giveData _).value hread

theorem isData_of_read {text : String} (h : read text = .ok v) : IsData v :=
  isData_of_readAll (readAll_of_read h)

theorem isData_of_readBytes {bs : List UInt8} (h : readBytes bs = .ok v) : IsData v := by
  unfold readBytes at h
  split at h
  next => exact isData_of_readAll h
  next => cases h

end Texts

end Json

/-- The data of a request is what a JSON text writes. -/
theorem Service.Payload.isData_of_read {contentType body : String} {v : Value}
    (h : Payload.read contentType body = .ok (.data v)) : v.IsData := by
  unfold Payload.read at h
  split at h
  next => cases h
  next =>
    split at h
    next =>
      cases hread : Json.readBytes body.toUTF8.toList with
      | ok found =>
          rw [hread] at h
          cases h
          exact Json.isData_of_readBytes hread
      | error e =>
          rw [hread] at h
          cases e <;> cases h
    next => cases h

end ContractBench
