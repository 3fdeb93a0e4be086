import ContractBench.Proofs.Display.Shown
import ContractBench.Proofs.Service.Sending

/-! # Answers to requests for a display

A request gets its result as it is shown, unless a key of digits in the result is no numeral or a
text in it is broken. Then it stops the service.
-/

namespace ContractBench.Service

open Display (IsNumbered shown)
open Value (IsData IsWhole Throughout)

/-- What a request has displayed: its result, or null where it brings none. -/
def resultOf (entries : List (Value × Value)) : Value :=
  ((Value.table entries).field? "result").getD .null

section Answers

variable {setting : Setting} {server : Server} {visit : Visit} {entries : List (Value × Value)}

theorem isData_resultOf (h : IsData (.table entries)) : IsData (resultOf entries) := by
  unfold resultOf
  cases hresult : (Value.table entries).field? "result" with
  | none => exact Value.isData_null
  | some v => exact h.of_field? hresult

theorem answer_of_display (h : Brings visit .display (.data (.table entries))) :
    (server.answer setting visit).page =
      (Answer.ofData "Resultado formatado" ((orFail (shown (resultOf entries))).map
        fun w => Value.ofFields [("result", w)])).page := by
  have hfields : (Payload.data (.table entries)).fields
      (fun v => Request.withDefault v "result" .null Request.anything) =
        .ok (resultOf entries) := by
    change Request.Checked.within Payload.step
      (Request.withDefault (.table entries) "result" .null Request.anything) = _
    rw [Request.withDefault, resultOf]
    cases (Value.table entries).field? "result" <;> rfl
  rw [answer_of_brings h, Server.answerWith, Server.display, Answer.ofFields, hfields]

/-- Data is shown if its keys of digits are numerals, and a request gets it if no text in it is
broken either. -/
theorem shown_iff_numbered {v : Value} (h : IsData v) :
    ((∃ w, shown v = .ok w) ↔ Throughout IsNumbered v) ∧
    ∀ (setting : Setting) (server : Server) (visit : Visit) (entries : List (Value × Value)),
      Brings visit .display (.data (.table entries)) → resultOf entries = v →
      (Throughout IsNumbered v ∧ IsWhole v → (server.answer setting visit).page.status = 200) ∧
      (¬(Throughout IsNumbered v ∧ IsWhole v) →
        (server.answer setting visit).page.status = 500) := by
  refine ⟨Display.exists_shown_iff h, ?_⟩
  rintro setting server visit entries hbrings rfl
  rw [answer_of_display hbrings]
  cases hshown : shown (resultOf entries) with
  | error fault =>
      have hnumbered : ¬Throughout IsNumbered (resultOf entries) := by
        rw [← Display.exists_shown_iff h, hshown]
        rintro ⟨w, ⟨⟩⟩
      have hpage : (Answer.ofData "Resultado formatado"
          ((orFail (.error fault)).map fun w => Value.ofFields [("result", w)])).page =
            Page.stopped :=
        Answer.page_ofFault fault
      rw [hpage]
      exact ⟨fun h => absurd h.1 hnumbered, fun _ => rfl⟩
  | ok w =>
      have hnumbered : Throughout IsNumbered (resultOf entries) :=
        (Display.exists_shown_iff h).mp ⟨w, hshown⟩
      obtain ⟨hw, hwhole⟩ := Display.isData_of_shown h hshown
      have hfields : IsData (Value.ofFields [("result", w)]) :=
        Json.isData_ofFields (List.nodup_singleton _) (List.forall_mem_singleton.mpr hw)
      have hsent : IsWhole (Value.ofFields [("result", w)]) ↔ IsWhole (resultOf entries) := by
        rw [Page.isWhole_ofFields, List.forall_mem_singleton]
        exact hwhole
      rw [and_iff_right hnumbered, ← hsent]
      obtain ⟨hdone, hstopped⟩ := @Answer.status_done "Resultado formatado" _ hfields
      exact ⟨hdone, fun h => congrArg Page.status (hstopped h)⟩

end Answers

section Samples

/-- A request for the display of a result that holds its fields by position and by name. -/
def twiceEntries : List (Value × Value) :=
  [(.text "result", .table [(.text "a", .int 7), (.text "0", .int 7)])]

def twiceVisit : Visit where
  method := "POST"
  address := ⟨Route.display.path, []⟩
  body := "\x7b\"result\": \x7b\"a\": 7, \"0\": 7\x7d\x7d"
  client := "10.0.0.1"

theorem brings_twice : Brings twiceVisit .display (.data (.table twiceEntries)) where
  posted := rfl
  route := by decide
  method := rfl
  read := by
    have hresult : Json.Kept (.ofFields [("a", .int 7), ("0", .int 7)]) := by
      refine Json.kept_ofFields (by decide : ["a", "0"].Nodup) ?_
      simp only [List.forall_mem_cons]
      exact ⟨.int (by decide), .int (by decide), List.forall_mem_nil _⟩
    have hkept : Json.Kept (.ofFields [("result", .ofFields [("a", .int 7), ("0", .int 7)])]) :=
      Json.kept_ofFields (List.nodup_singleton _) (List.forall_mem_singleton.mpr hresult)
    have hwrite : Json.write (.table twiceEntries) = .ok twiceVisit.body := by decide +kernel
    have hpoints : Json.pointsOf? twiceVisit.body.toUTF8.toList =
        some (Text.points twiceVisit.body) := by decide +kernel
    exact Payload.read_of_write hkept hwrite hpoints

theorem shown_iff_numbered_of_twice :
    (IsData (resultOf twiceEntries) ∧ Brings twiceVisit .display (.data (.table twiceEntries)) ∧
      Throughout IsNumbered (resultOf twiceEntries) ∧ IsWhole (resultOf twiceEntries)) ∧
    (∃ w, shown (resultOf twiceEntries) = .ok w) ∧
    (({} : Server).answer .idle twiceVisit).page.status = 200 := by
  have hresult : resultOf twiceEntries = .table [(.text "a", .int 7), (.text "0", .int 7)] := by
    simp [resultOf, twiceEntries, Value.field?, Ordered.get?]
  have hdata := isData_resultOf (Payload.isData_of_read brings_twice.read)
  have hparts {p : Value → Prop} (hint : p (.int 7)) :
      ∀ x ∈ (Value.table [(.text "a", .int 7), (.text "0", .int 7)]).parts, Throughout p x := by
    have hleaf : Throughout p (.int 7) := .leaf hint rfl
    simpa [Value.parts] using hleaf
  have hnumbered : Throughout IsNumbered (resultOf twiceEntries) := by
    rw [hresult]
    refine ⟨?_, hparts trivial⟩
    simp only [IsNumbered, List.forall_mem_cons]
    refine ⟨fun hname => ?_, fun _ => ⟨"0", rfl, by decide, by decide⟩, List.forall_mem_nil _⟩
    cases hname
  have hwhole : IsWhole (resultOf twiceEntries) := by
    rw [hresult]
    refine ⟨?_, hparts trivial⟩
    simp [Value.IsUnbroken]
  obtain ⟨hshown, hanswer⟩ := shown_iff_numbered hdata
  exact ⟨⟨hdata, brings_twice, hnumbered, hwhole⟩, hshown.mpr hnumbered,
    (hanswer .idle {} twiceVisit twiceEntries brings_twice rfl).1 ⟨hnumbered, hwhole⟩⟩

/-- The key looks like a digit and has no value. -/
def squaredEntries : List (Value × Value) := [(.text "\u00b2", .int 1)]

theorem not_forall_shown : ¬∀ v, IsData v → ∃ w, shown v = .ok w := by
  intro h
  have hdata : IsData (.table squaredEntries) := by
    refine ⟨⟨?_, List.nodup_singleton _⟩, List.forall_mem_singleton.mpr ?_⟩
    · exact List.forall_mem_singleton.mpr rfl
    · have hdigits : (Numeral.digitsOf (1 : Int).natAbs).length ≤ Numeral.longest := by decide
      exact ⟨hdigits, List.forall_mem_nil _⟩
  have hshown : shown (.table squaredEntries) = .error .unreadableNumeral := rfl
  obtain ⟨w, hw⟩ := h _ hdata
  rw [hshown] at hw
  cases hw

end Samples

end ContractBench.Service
