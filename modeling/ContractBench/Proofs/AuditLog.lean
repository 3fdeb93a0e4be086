import ContractBench.Audit
import ContractBench.Proofs.Json.RoundTrip
import Mathlib.Data.List.Forall2

/-! # Entries of the audit log

The log falls into one line for each call. No text of an event can end a line or begin another: the
line is written in printable ASCII, and is read back as the fields of the event.
-/

namespace ContractBench.Audit

/-- What an event keeps of a compilation, part by part. -/
def Event.parts (event : Event) : List Value :=
  [event.fileName, event.version, event.success, event.contractName, event.message, event.details]

/-- Events whose parts are data. Their texts may be broken. -/
def Event.Writable (event : Event) : Prop := ∀ part ∈ event.parts, part.IsData

/-- Events whose parts JSON keeps: no two halves in a text of theirs form a pair. -/
def Event.Recordable (event : Event) : Prop := ∀ part ∈ event.parts, Json.Kept part

/-- What a line of the log says of a call: it has no sign in it that could end it, and it is read as
the fields of the event. -/
structure Tells (line : List Char) (call : String × Event) : Prop where
  printable : ∀ c ∈ line, Json.isPrintable c = true
  reads : call.2.Recordable →
    Json.read (String.ofList line) = .ok (Value.ofFields (call.2.toFields call.1))

section Lines

variable {event : Event} {line : List Char}

theorem Event.Recordable.writable (h : event.Recordable) : event.Writable :=
  fun part hpart => (h part hpart).isData

theorem Event.nodup_names (event : Event) (time : String) :
    ((event.toFields time).map Prod.fst).Nodup :=
  (by decide : ["timestamp", "file_name", "solc_version", "success", "contract_name", "message",
    "details"].Nodup)

/-- What holds of the parts of an event holds of its fields, if it holds of the time and of the
table that stands for absent details. -/
theorem Event.forall_mem_toFields {p : Value → Prop} {time : String} (htime : p (.text time))
    (hempty : p (.table [])) (h : ∀ part ∈ event.parts, p part) :
    ∀ field ∈ event.toFields time, p field.2 := by
  simp only [parts, List.forall_mem_cons] at h
  obtain ⟨hfileName, hversion, hsuccess, hcontractName, hmessage, hdetails, -⟩ := h
  simp only [toFields, List.forall_mem_cons]
  refine ⟨htime, hfileName, hversion, hsuccess, hcontractName, hmessage, ?_, List.forall_mem_nil _⟩
  split
  · exact hdetails
  · exact hempty

theorem Event.Writable.isData_fields (h : event.Writable) (time : String) :
    (Value.ofFields (event.toFields time)).IsData := by
  refine Json.isData_ofFields (event.nodup_names time) ?_
  exact forall_mem_toFields (.leaf trivial rfl) (.leaf Ordered.textKeyed_nil rfl) h

theorem Event.Recordable.kept_fields (h : event.Recordable) (time : String) :
    Json.Kept (Value.ofFields (event.toFields time)) := by
  refine Json.kept_ofFields (event.nodup_names time) ?_
  exact forall_mem_toFields (.text (Json.keptText time)) (.table nofun List.nodup_nil nofun) h

theorem Event.Writable.exists_line (h : event.Writable) (time : String) :
    ∃ line, Tells line (time, event) ∧ event.line time = .ok (String.ofList (line ++ ['\n'])) := by
  obtain ⟨line, hwrite, hprints⟩ := Json.printed_writeValue (h.isData_fields time)
  have htext : Json.write (Value.ofFields (event.toFields time)) = .ok (String.ofList line) := by
    rw [Json.write, hwrite]
    rfl
  refine ⟨line, ⟨hprints, fun hkept => Json.read_of_write (hkept.kept_fields time) htext⟩, ?_⟩
  rw [Event.line, htext, String.ofList_append]
  rfl

theorem Tells.not_mem_newline {call : String × Event} (h : Tells line call) : '\n' ∉ line := by
  intro hmem
  have hprintable := h.printable '\n' hmem
  cases hprintable

end Lines

section Log

variable {calls : List (String × Event)}

/-- Lines that have no end in them are the pieces of the text in which each of them is ended. -/
theorem pieces_ended {lines : List (List Char)} (h : ∀ line ∈ lines, '\n' ∉ line) :
    Text.pieces '\n' (lines.flatMap (· ++ ['\n'])) = lines ++ [[]] := by
  induction lines with
  | nil => rfl
  | cons line lines ih =>
      obtain ⟨hline, hlines⟩ := List.forall_mem_cons.mp h
      rw [List.flatMap_cons, List.append_assoc, List.singleton_append, Text.pieces_append hline,
        ih hlines, List.cons_append]

/-- A call adds its line behind what is in the log. -/
theorem exists_noted {event : Event} (h : event.Writable) (log time : String) :
    ∃ line, Tells line (time, event) ∧
      (noted log time event).toList = log.toList ++ (line ++ ['\n']) := by
  obtain ⟨line, htells, hline⟩ := h.exists_line time
  refine ⟨line, htells, ?_⟩
  rw [noted, hline, String.toList_append, String.toList_ofList]

/-- Calls add their lines in order behind what is in the log. -/
theorem exists_lines (h : ∀ call ∈ calls, call.2.Writable) (log : String) :
    ∃ lines, List.Forall₂ Tells lines calls ∧
      (calls.foldl (fun log call => noted log call.1 call.2) log).toList =
        log.toList ++ lines.flatMap (· ++ ['\n']) := by
  induction calls generalizing log with
  | nil => exact ⟨[], .nil, (List.append_nil _).symm⟩
  | cons call calls ih =>
      obtain ⟨hcall, hcalls⟩ := List.forall_mem_cons.mp h
      obtain ⟨line, htells, hline⟩ := exists_noted hcall log call.1
      obtain ⟨lines, htold, hlines⟩ := ih hcalls (noted log call.1 call.2)
      refine ⟨line :: lines, .cons htells htold, ?_⟩
      rw [List.foldl_cons, hlines, hline, List.flatMap_cons, List.append_assoc]

/-- The log falls into one line for each call, in order, with nothing behind the last. -/
theorem exists_pieces_log (h : ∀ call ∈ calls, call.2.Writable) :
    ∃ lines, Text.pieces '\n' (log calls).toList = lines ++ [[]] ∧
      List.Forall₂ Tells lines calls := by
  obtain ⟨lines, htold, hlines⟩ := exists_lines h ""
  refine ⟨lines, ?_, htold⟩
  have hwhole : List.Forall₂ (fun line call => '\n' ∉ line ∧ Tells line call) lines calls :=
    htold.imp fun line call h => ⟨h.not_mem_newline, h⟩
  rw [log, hlines]
  exact pieces_ended ((List.forall₂_and_left lines calls).mp hwhole).1

/-- An event with the two halves of a pair in a text. -/
def pairedEvent : Event where
  fileName := .brokenText [0xD83D, 0xDE00]
  version := .text "0.8.20"

/-- The same event with the character that the halves write together. -/
def joinedEvent : Event :=
  { pairedEvent with fileName := .text (String.singleton (Char.ofNat 0x1F600)) }

theorem recordable_joinedEvent : joinedEvent.Recordable := by
  simp only [Event.Recordable, Event.parts, List.forall_mem_cons]
  exact ⟨.text (Json.keptText _), .text (Json.keptText _), .bool _, .null, .null, .null,
    List.forall_mem_nil _⟩

theorem writable_pairedEvent : pairedEvent.Writable := by
  simp only [Event.Writable, Event.parts, List.forall_mem_cons]
  exact ⟨.leaf trivial rfl, .leaf trivial rfl, .leaf trivial rfl, Value.isData_null,
    Value.isData_null, Value.isData_null, List.forall_mem_nil _⟩

/-- Two halves that form a pair are read back as one character. -/
theorem not_forall_read_back :
    ¬∀ calls : List (String × Event), (∀ call ∈ calls, call.2.Writable) →
      ∃ lines, Text.pieces '\n' (log calls).toList = lines ++ [[]] ∧
        List.Forall₂ (fun line call =>
          Json.read (String.ofList line) = .ok (Value.ofFields (call.2.toFields call.1)))
          lines calls := by
  intro h
  -- Both events leave the same line, so it cannot be read as the fields of both.
  have hsame : log [("", pairedEvent)] = log [("", joinedEvent)] := by decide +kernel
  obtain ⟨lines, hlines, hread⟩ :=
    h [("", pairedEvent)] (List.forall_mem_singleton.mpr writable_pairedEvent)
  have hwritable : ∀ call ∈ [("", joinedEvent)], call.2.Writable :=
    List.forall_mem_singleton.mpr recordable_joinedEvent.writable
  obtain ⟨others, hothers, htells⟩ := exists_pieces_log hwritable
  obtain rfl : lines = others := by
    rw [hsame, hothers] at hlines
    exact (List.append_cancel_right hlines).symm
  cases hread with
  | cons hread _ =>
      cases htells with
      | cons htells _ =>
          have hfields := Except.ok.inj (hread.symm.trans (htells.reads recordable_joinedEvent))
          simp [Value.ofFields, Event.toFields, pairedEvent, joinedEvent] at hfields

end Log

end ContractBench.Audit
