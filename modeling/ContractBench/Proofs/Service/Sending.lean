import ContractBench.Proofs.Json.Data
import ContractBench.Proofs.Traversal
import ContractBench.Service.Server

/-! # Sending data

A page can hold data unless a text in it is broken. So a request whose answer is data gets it, or
the page for what stops the service.
-/

namespace ContractBench

open Value (IsData IsWhole IsUnbroken)

namespace Service

namespace Page

/-- An entry as it is sent. -/
def plainEntry (entry : Value × Value) : Except Fault (Value × Value) := do
  let name ← keyText entry.1
  let first ← plain entry.2
  return (.text name, first)

section Plain

variable {v w key : Value} {entries : List (Value × Value)}

theorem plainItems_eq (xs : List Value) : plainItems xs = xs.mapM plain := by
  induction xs with
  | nil => rw [plainItems, List.mapM_nil]; rfl
  | cons x xs ih => rw [plainItems, List.mapM_cons, ih]

theorem plainEntries_eq (entries : List (Value × Value)) :
    plainEntries entries = entries.mapM plainEntry := by
  induction entries with
  | nil => rw [plainEntries, List.mapM_nil]; rfl
  | cons entry entries ih =>
      rw [plainEntries, List.mapM_cons, ih, plainEntry]
      simp only [bind_assoc, pure_bind]

theorem plainEntry_eq_ok_iff {entry sent : Value × Value} :
    plainEntry entry = .ok sent ↔
      ∃ name, keyText entry.1 = .ok name ∧ sent.1 = .text name ∧ plain entry.2 = .ok sent.2 := by
  constructor
  · intro h
    obtain ⟨name, hname, hrest⟩ := bind_eq_ok_iff.mp h
    obtain ⟨first, hfirst, hdone⟩ := bind_eq_ok_iff.mp hrest
    cases hdone
    exact ⟨name, hname, rfl, hfirst⟩
  · rintro ⟨name, hname, hkey, hvalue⟩
    refine bind_eq_ok_iff.mpr ⟨name, hname, bind_eq_ok_iff.mpr ⟨sent.2, hvalue, ?_⟩⟩
    rw [← hkey]
    rfl

theorem exists_keyText_iff (h : key.kind = .text) :
    (∃ name, keyText key = .ok name) ↔ ∀ ps, key ≠ .brokenText ps := by
  cases key with
  | text s => exact iff_of_true ⟨s, by rw [keyText]⟩ nofun
  | brokenText ps =>
      refine iff_of_false ?_ fun hne => hne ps rfl
      rintro ⟨name, hname⟩
      rw [keyText] at hname
      cases hname
  | _ => cases h

theorem exists_plain_list_iff {xs : List Value} :
    (∃ w, plain (.list xs) = .ok w) ↔ ∀ x ∈ xs, ∃ w, plain x = .ok w := by
  rw [plain, plainItems_eq, ← exists_mapM_eq_ok_iff]
  simp only [map_eq_ok_iff]
  constructor
  · rintro ⟨_, ys, hys, -⟩
    exact ⟨ys, hys⟩
  · rintro ⟨ys, hys⟩
    exact ⟨_, ys, hys, rfl⟩

theorem exists_plain_table_iff :
    (∃ w, plain (.table entries) = .ok w) ↔
      ∀ entry ∈ entries, (∃ name, keyText entry.1 = .ok name) ∧ ∃ w, plain entry.2 = .ok w := by
  have hentries : (∃ w, plain (.table entries) = .ok w) ↔
      ∀ entry ∈ entries, ∃ sent, plainEntry entry = .ok sent := by
    rw [plain, plainEntries_eq, ← exists_mapM_eq_ok_iff]
    simp only [map_eq_ok_iff]
    constructor
    · rintro ⟨_, sent, hsent, -⟩
      exact ⟨sent, hsent⟩
    · rintro ⟨sent, hsent⟩
      exact ⟨_, sent, hsent, rfl⟩
  rw [hentries]
  refine forall₂_congr fun entry _ => ?_
  simp only [plainEntry_eq_ok_iff]
  constructor
  · rintro ⟨sent, name, hname, -, hvalue⟩
    exact ⟨⟨name, hname⟩, _, hvalue⟩
  · rintro ⟨⟨name, hname⟩, w, hw⟩
    exact ⟨(.text name, w), name, hname, rfl, hw⟩

/-- Data can be sent unless a text in it is broken. -/
theorem exists_plain_iff (h : IsData v) : (∃ w, plain v = .ok w) ↔ IsWhole v := by
  induction h with
  | @intro v h _ ih =>
      rw [IsWhole, Value.throughout_iff]
      cases v with
      | null | bool | int | text =>
          refine iff_of_true ?_ ⟨trivial, List.forall_mem_nil _⟩
          simp only [plain]
          exact ⟨_, rfl⟩
      | double bits =>
          refine iff_of_true ?_ ⟨trivial, List.forall_mem_nil _⟩
          rw [plain]
          split <;> exact ⟨_, rfl⟩
      | brokenText ps =>
          refine iff_of_false ?_ fun hwhole => hwhole.1
          rintro ⟨w, hw⟩
          rw [plain] at hw
          cases hw
      | list xs =>
          rw [exists_plain_list_iff]
          exact (forall₂_congr ih).trans (and_iff_right trivial).symm
      | table entries =>
          rw [exists_plain_table_iff]
          have hkey : ∀ entry ∈ entries,
              ((∃ name, keyText entry.1 = .ok name) ↔ ∀ ps, entry.1 ≠ .brokenText ps) :=
            fun entry hentry => exists_keyText_iff (h.kind_eq hentry)
          have hvalue := List.forall_mem_map.mp ih
          constructor
          · intro hsent
            refine ⟨fun entry hentry => (hkey entry hentry).mp (hsent entry hentry).1, ?_⟩
            exact List.forall_mem_map.mpr fun entry hentry =>
              (hvalue entry hentry).mp (hsent entry hentry).2
          · rintro ⟨hkeys, hvalues⟩ entry hentry
            exact ⟨(hkey entry hentry).mpr (hkeys entry hentry), (hvalue entry hentry).mpr
              (hvalues _ (List.mem_map_of_mem hentry))⟩
      | bytes | tuple | record => cases h

/-- What is sent of data is data. -/
theorem isData_of_plain (h : IsData v) (hplain : plain v = .ok w) : IsData w := by
  induction h generalizing w with
  | @intro v h hparts ih =>
      cases v with
      | null | bool | int | text =>
          simp only [plain, Except.ok.injEq] at hplain
          subst hplain
          exact ⟨h, hparts⟩
      | double bits =>
          rw [plain] at hplain
          split at hplain <;> cases hplain <;> exact .leaf trivial rfl
      | brokenText ps =>
          rw [plain] at hplain
          cases hplain
      | list xs =>
          rw [plain, plainItems_eq] at hplain
          obtain ⟨ys, hys, rfl⟩ := map_eq_ok_iff.mp hplain
          refine ⟨trivial, fun y hy => ?_⟩
          obtain ⟨x, hx, hsent⟩ := (exists_of_forall₂_mem (mapM_eq_ok_iff.mp hys)).2 y hy
          exact ih x hx hsent
      | table entries =>
          rw [plain, plainEntries_eq] at hplain
          obtain ⟨sent, hsent, rfl⟩ := map_eq_ok_iff.mp hplain
          refine Json.isData_table fun other hother => ?_
          obtain ⟨entry, hentry, hone⟩ :=
            (exists_of_forall₂_mem (mapM_eq_ok_iff.mp hsent)).2 other hother
          obtain ⟨name, -, hkey, hvalue⟩ := plainEntry_eq_ok_iff.mp hone
          refine ⟨by rw [hkey]; rfl, ?_⟩
          exact ih entry.2 (List.mem_map_of_mem hentry) hvalue
      | bytes | tuple | record => cases h

end Plain

section Fields

variable {fields : List (String × Value)} {page : Page} {status : Nat}

/-- Names are no broken texts. -/
theorem isUnbroken_ofFields (fields : List (String × Value)) :
    IsUnbroken (Value.ofFields fields) := List.forall_mem_map.mpr nofun

theorem isWhole_ofFields :
    IsWhole (Value.ofFields fields) ↔ ∀ field ∈ fields, IsWhole field.2 := by
  rw [IsWhole, Value.throughout_iff, and_iff_right (isUnbroken_ofFields fields)]
  exact List.forall_mem_map.trans List.forall_mem_map

/-- Fields make up a page unless a text in them is broken. -/
theorem exists_ofFields_iff (hnames : (fields.map Prod.fst).Nodup)
    (h : ∀ field ∈ fields, IsData field.2) :
    (∃ page, ofFields status fields = .ok page) ↔ ∀ field ∈ fields, IsWhole field.2 := by
  have hdata := Json.isData_ofFields hnames h
  rw [← isWhole_ofFields, ← exists_plain_iff hdata]
  constructor
  · rintro ⟨page, hpage⟩
    obtain ⟨w, hw, -⟩ := bind_eq_ok_iff.mp hpage
    exact ⟨w, hw⟩
  · rintro ⟨w, hw⟩
    obtain ⟨cs, hcs, -⟩ := Json.printed_writeValue (isData_of_plain hdata hw)
    refine ⟨⟨status, String.ofList cs, []⟩, ?_⟩
    rw [ofFields, hw]
    change (Json.write w >>= _) = _
    rw [Json.write, hcs]
    rfl

theorem status_of_ofFields (h : ofFields status fields = .ok page) : page.status = status := by
  obtain ⟨w, -, hwritten⟩ := bind_eq_ok_iff.mp h
  obtain ⟨text, -, hpage⟩ := bind_eq_ok_iff.mp hwritten
  cases hpage
  rfl

end Fields

section Envelopes

variable {e : Envelope} {page : Page} {status : Nat}

/-- An envelope makes up a page unless a text in its message, its data or its errors is broken. -/
theorem exists_toFields_iff (hdata : IsData e.data) (herrors : IsData (e.errors.getD .null)) :
    (∃ page, ofFields status e.toFields = .ok page) ↔
      IsWhole (Value.ofRaw? e.message) ∧ IsWhole e.data ∧ IsWhole (e.errors.getD .null) := by
  have hnames : (e.toFields.map Prod.fst).Nodup :=
    (by decide : ["success", "message", "data", "errors"].Nodup)
  have hsuccess : IsWhole (.bool e.success) := .leaf trivial rfl
  rw [exists_ofFields_iff hnames]
  · simp [Envelope.toFields, hsuccess]
  · simp only [Envelope.toFields, List.forall_mem_cons]
    exact ⟨.leaf trivial rfl, Value.isData_ofRaw? e.message, hdata, herrors, List.forall_mem_nil _⟩

theorem ofEnvelope_of_ok (h : ofFields status e.toFields = .ok page) :
    ofEnvelope status e = page := by
  rw [ofEnvelope, h]
  rfl

theorem ofEnvelope_of_not (h : ¬∃ page, ofFields status e.toFields = .ok page) :
    ofEnvelope status e = stopped := by
  rw [ofEnvelope]
  cases hpage : ofFields status e.toFields with
  | ok page => exact absurd ⟨page, hpage⟩ h
  | error fault => rfl

end Envelopes

end Page

section Answers

variable {setting : Setting} {server : Server} {visit : Visit} {payload : Payload} {route : Route}
  {message : String} {data : Value}

/-- An answer with data is a success if no text in the data is broken, else the service stops. -/
theorem Answer.status_done (h : IsData data) :
    (IsWhole data → (Answer.envelope (.done message data)).page.status = 200) ∧
      (¬IsWhole data → (Answer.envelope (.done message data)).page = Page.stopped) := by
  have hmessage : IsWhole (Value.ofRaw message) := Value.isWhole_ofRaw_iff.mpr ⟨message, rfl⟩
  have hsent : (∃ page, Page.ofFields 200 (Envelope.done message data).toFields = .ok page) ↔
      IsWhole data :=
    (@Page.exists_toFields_iff (.done message data) 200 h Value.isData_null).trans
      ((and_iff_right hmessage).trans (and_iff_left Value.isWhole_null))
  constructor
  · intro hwhole
    obtain ⟨page, hpage⟩ := hsent.mpr hwhole
    rw [Answer.page, Page.ofEnvelope_of_ok hpage]
    exact Page.status_of_ofFields hpage
  · intro hbroken
    exact Page.ofEnvelope_of_not (mt hsent.mp hbroken)

/-- A fault stops the service. -/
theorem Answer.page_ofFault (fault : Fault) :
    (Answer.ofFailure (.fault fault)).page = Page.stopped := by
  have hsent : Page.ofFields 500 (Problem.internal .null).toFields = .ok Page.stopped := by
    with_unfolding_all rfl
  change { Page.ofEnvelope 500 (Problem.internal .null) with headers := [] } = Page.stopped
  rw [Page.ofEnvelope_of_ok hsent]
  rfl

/-- A request brings a payload to a route. -/
structure Brings (visit : Visit) (route : Route) (payload : Payload) : Prop where
  posted : route.method = "POST"
  route : Route.for? visit.address.path = some route
  method : visit.method = "POST"
  read : Payload.read visit.contentType visit.body = .ok payload

/-- A payload that is brought to a route is answered there. -/
theorem answer_of_brings (h : Brings visit route payload) :
    server.answer setting visit = server.answerWith setting visit payload route := by
  have hhead : ¬visit.method = "HEAD" := by
    rw [h.method]
    decide
  have hmethod : route.method = visit.method := h.posted.trans h.method.symm
  simp only [Server.answer, h.route, if_pos hmethod, if_neg hhead, Server.answerAt, if_pos h.posted,
    h.read]

end Answers

/-- A body that is written for a value is read as this value. -/
theorem Payload.read_of_write {v : Value} {body : String} (hkept : Json.Kept v)
    (hwrite : Json.write v = .ok body)
    (hpoints : Json.pointsOf? body.toUTF8.toList = some (Text.points body)) :
    Payload.read "application/json" body = .ok (.data v) := by
  have hread := Json.read_of_write hkept hwrite
  have hsome : ¬body = "" := by
    rintro rfl
    cases hread
  have hjson : Payload.isJsonType "application/json" = true := by decide +kernel
  rw [Json.read, Json.readPoints] at hread
  split at hread
  next => cases hread
  next =>
    rw [Payload.read, if_neg hsome, if_pos hjson, Json.readBytes, hpoints]
    dsimp only
    rw [hread]
    rfl

/-- A setting in which nothing outside answers. -/
def Setting.idle : Setting where
  surroundings := ⟨Web.missing, ⟨[]⟩, .output .null⟩
  explorerReply := Web.missing

end Service

end ContractBench
