import ContractBench.Proofs.AuditLog
import ContractBench.Proofs.Compiler.Containment
import ContractBench.Proofs.Service.Sending
import ContractBench.Proofs.Source.Preorder

/-! # Compilations in the audit log

A request that has something compiled leaves one line in the audit log, which tells what its answer
tells, also where the answer cannot be sent. Every other request leaves none.
-/

namespace ContractBench.Service

/-- What the limiter decides on a request for a compilation. -/
def admission (setting : Setting) (server : Server) (visit : Visit) : Limit.Admission :=
  setting.limiter.consider setting.failing server.counters visit.client Route.compile.path

/-- Whether a request asks for a job at a payload. -/
def AsksFor (visit : Visit) (job : Compiler.Job) : Prop :=
  ∃ payload, Payload.read visit.contentType visit.body = .ok payload ∧
    payload.fields Compiler.Job.read = .ok job

/-- Whether a request comes to have a job compiled. -/
structure Reaches (setting : Setting) (server : Server) (visit : Visit) (job : Compiler.Job) :
    Prop where
  route : Route.for? visit.address.path = some .compile
  method : visit.method = "POST"
  asks : AsksFor visit job
  admitted : (admission setting server visit).verdict = .admitted

/-- The name of the contract in the data of an answer, null where there is none. -/
def namedContract (data : Value) : Value :=
  ((data.field? "contract").bind fun contract => contract.field? "contract_name").getD .null

/-- Whether an entry of the log tells what an answer tells. Of a success no message is noted. -/
structure Agrees (event : Audit.Event) (e : Envelope) : Prop where
  success : event.success = .bool e.success
  contractName : event.contractName = namedContract e.data
  message : event.message = if e.success then .null else Value.ofRaw? e.message

/-- The texts of a compilation that are noted. -/
def notedTexts (job : Compiler.Job) (c : Compiler.Compilation) : List RawText :=
  [job.fileName, job.version] ++ (c.contract.map (·.name)).toList ++
    if c.success then [] else c.message.toList

section Entries

variable {visit : Visit} {job : Compiler.Job} {c : Compiler.Compilation}

theorem exists_of_fields {α : Type} {payload : Payload} {reader : Request.Reader α} {x : α}
    (h : payload.fields reader = .ok x) : ∃ v, reader v = .ok x := by
  have hread := Request.Checked.within_eq_ok_iff.mp h
  split at hread
  next => cases hread
  next => cases hread
  next => exact ⟨_, hread⟩
  next => cases hread

theorem runs_of_read {v : Value} (h : Compiler.Job.read v = .ok job) :
    Compiler.runsRange.1 ≤ job.runs ∧ job.runs ≤ Compiler.runsRange.2 := by
  -- The fields are taken one after the other, the number of runs last but one.
  obtain ⟨_, _, hevm, -, rfl⟩ := Request.Checked.take_eq_ok_iff.mp h
  obtain ⟨_, runs, htruth, hruns, rfl⟩ := Request.Checked.take_eq_ok_iff.mp hevm
  obtain ⟨_, _, hversion, -, rfl⟩ := Request.Checked.take_eq_ok_iff.mp htruth
  obtain ⟨_, _, hname, -, rfl⟩ := Request.Checked.take_eq_ok_iff.mp hversion
  obtain ⟨_, _, hsource, -, rfl⟩ := Request.Checked.take_eq_ok_iff.mp hname
  obtain ⟨_, -, rfl⟩ := Request.Checked.map_eq_ok_iff.mp hsource
  change Compiler.runsRange.1 ≤ runs ∧ runs ≤ Compiler.runsRange.2
  unfold Request.withDefault at hruns
  split at hruns
  next =>
    obtain ⟨n, -, hrange⟩ := bind_eq_ok_iff.mp (Request.Checked.within_eq_ok_iff.mp hruns)
    split at hrange
    next => cases hrange
    next hlow =>
      split at hrange
      next => cases hrange
      next hhigh =>
        cases hrange
        exact ⟨Int.not_lt.mp hlow, Int.not_lt.mp hhigh⟩
  next =>
    cases hruns
    decide

theorem forall_mem_notedTexts {p : RawText → Prop} (h : ∀ text ∈ notedTexts job c, p text) :
    p job.fileName ∧ p job.version ∧ (∀ name ∈ c.contract.map (·.name), p name) ∧
      (c.success = false → ∀ message ∈ c.message, p message) := by
  simp only [notedTexts, List.forall_mem_append, List.forall_mem_cons, Option.mem_toList] at h
  obtain ⟨⟨⟨hfileName, hversion, -⟩, hname⟩, hmessage⟩ := h
  refine ⟨hfileName, hversion, hname, fun hfailed => ?_⟩
  simpa [hfailed] using hmessage

/-- What holds of null, of the texts that are noted and of how the compiler is set up holds of the
parts of the entry. -/
theorem forall_mem_parts_event {p : Value → Prop} (hnull : p .null) (hbool : ∀ b, p (.bool b))
    (htext : ∀ text ∈ notedTexts job c, p (.ofRaw text))
    (hdetails : p (Server.event job c).details) :
    ∀ part ∈ (Server.event job c).parts, p part := by
  have hoption {t? : Option RawText} (h : ∀ t ∈ t?, p (.ofRaw t)) : p (.ofRaw? t?) := by
    cases t? with
    | none => exact hnull
    | some t => exact h t rfl
  obtain ⟨hfileName, hversion, hname, hmessage⟩ := forall_mem_notedTexts htext
  simp only [Audit.Event.parts, List.forall_mem_cons]
  refine ⟨hfileName, hversion, hbool _, hoption hname, ?_, hdetails, List.forall_mem_nil _⟩
  unfold Server.event
  split
  next => exact hnull
  next hfailed => exact hoption (hmessage (Bool.eq_false_iff.mpr hfailed))

theorem kept_details (hruns : Compiler.runsRange.1 ≤ job.runs ∧ job.runs ≤ Compiler.runsRange.2)
    (c : Compiler.Compilation) : Json.Kept (Server.event job c).details := by
  refine Json.kept_ofFields
    (by decide : ["optimization_enabled", "optimization_runs", "evm_version"].Nodup) ?_
  have hfew : job.runs.natAbs < 100000 := by
    simp only [Compiler.runsRange] at hruns
    omega
  simp only [List.forall_mem_cons]
  refine ⟨.bool _, .int ?_, .text (Json.keptText _), List.forall_mem_nil _⟩
  exact Nat.le_trans (Numeral.length_digitsOf_le (k := 5) (by decide) hfew) (by decide)

/-- The entry for a compilation can always be written. -/
theorem writable_event (hruns : Compiler.runsRange.1 ≤ job.runs ∧ job.runs ≤ Compiler.runsRange.2)
    (c : Compiler.Compilation) : (Server.event job c).Writable :=
  forall_mem_parts_event Value.isData_null
    (fun _ => .leaf trivial rfl) (fun text _ => Value.isData_ofRaw text)
    (kept_details hruns c).isData

/-- The entry is read back if no text that is noted holds the two halves of a pair. -/
theorem recordable_event
    (hruns : Compiler.runsRange.1 ≤ job.runs ∧ job.runs ≤ Compiler.runsRange.2)
    (htexts : ∀ text ∈ notedTexts job c, Json.Unjoined text.numbers) :
    (Server.event job c).Recordable :=
  forall_mem_parts_event .null .bool (fun text htext => .text ⟨_, htexts text htext, rfl⟩)
    (kept_details hruns c)

/-- The envelope of a compilation tells its message, with the data of a success or the diagnostics
of a failure. -/
theorem ofCompilation_cases {e : Envelope} (h : Envelope.ofCompilation c = .ok e) :
    (c.success = true ∧ ∃ data, Envelope.compilationData c = .ok data ∧
      e = { success := true, message := c.message, data }) ∨
    (c.success = false ∧
      e = { success := false
            message := c.message
            errors :=
              if c.diagnostics.isEmpty then none
              else some (.ofFields [("diagnostics", .ofRaws c.diagnostics)]) }) := by
  unfold Envelope.ofCompilation at h
  split at h
  next hsuccess =>
    obtain ⟨data, hdata, rfl⟩ := map_eq_ok_iff.mp h
    exact Or.inl ⟨hsuccess, data, hdata, rfl⟩
  next hfailed =>
    cases h
    exact Or.inr ⟨Bool.eq_false_iff.mpr hfailed, rfl⟩

/-- The entry for a compilation with a result agrees with the envelope that is made of it. -/
theorem agrees_of_envelope {e : Envelope} (hcontract : c.success = false → c.contract = none)
    (h : Envelope.ofCompilation c = .ok e) : Agrees (Server.event job c) e := by
  obtain ⟨hsuccess, data, hdata, rfl⟩ | ⟨hfailed, rfl⟩ := ofCompilation_cases h
  · unfold Envelope.compilationData at hdata
    split at hdata
    next contract hsome =>
      cases hdata
      refine ⟨by rw [Server.event, hsuccess], ?_, by simp [Server.event, hsuccess]⟩
      simp [Server.event, hsome, namedContract, Value.field?_ofFields,
        Compiler.Contract.toValue, Ordered.get?, Value.ofRaw?]
    next => cases hdata
  · refine ⟨by rw [Server.event, hfailed], ?_, by simp [Server.event, hfailed]⟩
    simp [Server.event, hcontract hfailed, namedContract, Value.ofRaw?, Value.field?]

theorem message_of_envelope {e : Envelope} (h : Envelope.ofCompilation c = .ok e) :
    e.message = c.message := by
  obtain ⟨-, data, -, rfl⟩ | ⟨-, rfl⟩ := ofCompilation_cases h <;> rfl

theorem isWhole_ofRaw?_iff {t? : Option RawText} :
    Value.IsWhole (.ofRaw? t?) ↔ ∀ t ∈ t?, ∃ s : String, t = s := by
  cases t? with
  | none => exact iff_of_true Value.isWhole_null nofun
  | some t => simpa [Value.ofRaw?] using Value.isWhole_ofRaw_iff

theorem isData_ofRaws (ts : List RawText) : Value.IsData (.ofRaws ts) :=
  ⟨trivial, List.forall_mem_map.mpr fun t _ => Value.isData_ofRaw t⟩

theorem isWhole_ofRaws_iff {ts : List RawText} :
    Value.IsWhole (.ofRaws ts) ↔ ∀ t ∈ ts, ∃ s : String, t = s := by
  rw [Value.IsWhole, Value.throughout_iff]
  refine (and_iff_right trivial).trans (List.forall_mem_map.trans ?_)
  exact forall₂_congr fun t _ => Value.isWhole_ofRaw_iff

/-- The details of a failure are data, and whole if its diagnostics are. -/
theorem details_of_diagnostics (texts : List RawText) :
    let errors : Option Value :=
      if texts.isEmpty then none else some (.ofFields [("diagnostics", .ofRaws texts)])
    Value.IsData (errors.getD .null) ∧
      (Value.IsWhole (errors.getD .null) ↔ ∀ text ∈ texts, ∃ s : String, text = s) := by
  cases texts with
  | nil =>
      exact ⟨Value.isData_null, iff_of_true Value.isWhole_null (List.forall_mem_nil _)⟩
  | cons text texts =>
      refine ⟨Json.isData_ofFields (List.nodup_singleton _)
        (List.forall_mem_singleton.mpr (isData_ofRaws _)), ?_⟩
      rw [← isWhole_ofRaws_iff]
      exact Page.isWhole_ofFields.trans List.forall_mem_singleton

/-- The envelope of a compilation that failed can be sent unless a text that it tells is broken. -/
theorem exists_page_iff_of_failure {e : Envelope} (h : Envelope.ofCompilation c = .ok e)
    (hfailed : e.success = false) :
    (∃ page, Page.ofFields 200 e.toFields = .ok page) ↔
      ∀ text ∈ c.message.toList ++ c.diagnostics, ∃ s : String, text = s := by
  obtain ⟨-, data, -, rfl⟩ | ⟨-, rfl⟩ := ofCompilation_cases h
  · cases hfailed
  · obtain ⟨hdata, hwhole⟩ := details_of_diagnostics c.diagnostics
    rw [Page.exists_toFields_iff Value.isData_null hdata, hwhole,
      and_iff_right Value.isWhole_null,
      isWhole_ofRaw?_iff, List.forall_mem_append]
    simp only [Option.mem_toList, Option.mem_def]

end Entries

section Visits

variable {setting : Setting} {server : Server} {visit : Visit} {job : Compiler.Job}

/-- The compilation that a request has made. -/
def compilation (setting : Setting) (server : Server) (job : Compiler.Job) : Compiler.Report :=
  Compiler.compile setting.library setting.surroundings server.workbench job

/-- A compilation has a result, and its result an envelope. -/
theorem exists_envelope (setting : Setting) (server : Server) (job : Compiler.Job) :
    ∃ c e, (compilation setting server job).result = .ok c ∧ Envelope.ofCompilation c = .ok e ∧
      (c.success = false → c.contract = none) := by
  obtain ⟨c, hresult, hfaithful⟩ := Compiler.exists_faithful setting.library setting.surroundings
    server.workbench job
  have henvelope : ∃ e, Envelope.ofCompilation c = .ok e := by
    unfold Envelope.ofCompilation
    split
    next hsuccess =>
      obtain ⟨_, _, _, contract, _, -, -, -, hcontract, -⟩ := hfaithful.success hsuccess
      rw [Envelope.compilationData, hcontract]
      exact ⟨_, rfl⟩
    next => exact ⟨_, rfl⟩
  obtain ⟨e, he⟩ := henvelope
  exact ⟨c, e, hresult, he, fun hfailed => (hfaithful.failure hfailed).1⟩

/-- A request that comes to a compilation is answered by what it comes to. -/
theorem answer_of_reaches (h : Reaches setting server visit job) :
    let noted := Server.compilationNoted setting job (compilation setting server job).result
    (server.answer setting visit).page =
        noted.1.page.withAllowance (admission setting server visit).allowance ∧
      (server.answer setting visit).record.audit = noted.2 := by
  obtain ⟨payload, hpayload, hfields⟩ := h.asks
  have hadmitted := h.admitted
  unfold admission at hadmitted
  have hbrings : Brings visit .compile payload := ⟨rfl, h.route, h.method, hpayload⟩
  simp only [answer_of_brings hbrings, Server.answerWith, Server.compile, hadmitted, hfields]
  exact ⟨rfl, rfl⟩

/-- Only compilations are noted. -/
theorem audit_answerWith {route : Route} (h : route ≠ .compile) (payload : Payload) :
    (server.answerWith setting visit payload route).record.audit = [] := by
  cases route with
  | compile => exact absurd rfl h
  | flatten =>
      change (server.flatten setting payload).record.audit = []
      unfold Server.flatten
      split <;> rfl
  | submit =>
      change (server.submit setting payload).record.audit = []
      unfold Server.submit
      split <;> rfl
  | standing =>
      change (server.standing setting visit).record.audit = []
      unfold Server.standing
      split <;> rfl
  | versions | categories | arguments | display | root | health => rfl

/-- A compilation is noted only if its fields are read and its client is admitted. -/
theorem audit_compile {payload : Payload}
    (h : ∀ job, payload.fields Compiler.Job.read = .ok job →
      (admission setting server visit).verdict ≠ .admitted) :
    (server.compile setting visit payload).record.audit = [] := by
  unfold admission at h
  unfold Server.compile
  dsimp only
  split
  next => rfl
  next hadmitted =>
    split
    next => rfl
    next job hjob => exact absurd hadmitted (h job hjob)

/-- A request that comes to no compilation leaves no line. -/
theorem audit_of_not_reaches (h : ∀ job, ¬Reaches setting server visit job) :
    (server.answer setting visit).record.audit = [] := by
  have hserved : ∀ route, Route.for? visit.address.path = some route →
      route.method = visit.method → (server.answerAt setting visit route).record.audit = [] := by
    intro route hroute hmethod
    unfold Server.answerAt
    by_cases hcompile : route = .compile
    · subst hcompile
      rw [if_pos (by rfl)]
      split
      next payload hpayload =>
        exact audit_compile fun job hjob hadmitted =>
          h job ⟨hroute, hmethod.symm, ⟨payload, hpayload, hjob⟩, hadmitted⟩
      next => rfl
      next => rfl
    · split
      next =>
        split
        next payload _ => exact audit_answerWith hcompile payload
        next => rfl
        next => rfl
      next => exact audit_answerWith hcompile .missing
  -- What is done for a request does not depend on whether its page is sent with a body.
  have hrecord (served : Served) : (if visit.method = "HEAD" then
      { served with page := served.page.bare } else served).record = served.record := by
    split <;> rfl
  unfold Server.answer
  rw [hrecord]
  split
  next => rfl
  next route hroute =>
    split
    next hmethod => exact hserved route hroute hmethod
    next => rfl

/-- What is left in the log of a compilation, and what is sent of it. -/
structure Noted (setting : Setting) (server : Server) (visit : Visit) (job : Compiler.Job)
    (c : Compiler.Compilation) (e : Envelope) : Prop where
  /-- The one line that is left tells the entry. -/
  line : ∃ line, (server.answer setting visit).record.audit = [String.ofList (line ++ ['\n'])] ∧
    Audit.Tells line (setting.time, Server.event job c)
  recordable : (∀ text ∈ notedTexts job c, Json.Unjoined text.numbers) →
    (Server.event job c).Recordable
  agrees : Agrees (Server.event job c) e
  /-- The envelope is sent wherever it can be. -/
  sent : ∀ page, Page.ofFields 200 e.toFields = .ok page →
    (server.answer setting visit).page =
      page.withAllowance (admission setting server visit).allowance
  stopped : (¬∃ page, Page.ofFields 200 e.toFields = .ok page) →
    (server.answer setting visit).page = Page.stopped
  failure : e.success = false → ((∃ page, Page.ofFields 200 e.toFields = .ok page) ↔
    ∀ text ∈ c.message.toList ++ c.diagnostics, ∃ s : String, text = s)

/-- A request that comes to a compilation leaves one line, whatever is sent. -/
theorem noted_of_reaches (h : Reaches setting server visit job) :
    ∃ c e, (compilation setting server job).result = .ok c ∧ Envelope.ofCompilation c = .ok e ∧
      Noted setting server visit job c e := by
  obtain ⟨payload, -, hfields⟩ := h.asks
  obtain ⟨v, hread⟩ := exists_of_fields hfields
  obtain ⟨c, e, hresult, he, hcontract⟩ := exists_envelope setting server job
  have hruns := runs_of_read hread
  obtain ⟨line, htells, hline⟩ := (writable_event hruns c).exists_line setting.time
  have hnoted : Server.compilationNoted setting job (.ok c) =
      (.envelope e, [String.ofList (line ++ ['\n'])]) := by
    rw [Server.compilationNoted, hline, Server.compilationAnswer, he]
  obtain ⟨hpage, haudit⟩ := answer_of_reaches h
  rw [hresult, hnoted] at hpage haudit
  refine ⟨c, e, hresult, he, ⟨line, haudit, htells⟩, recordable_event hruns,
    agrees_of_envelope hcontract he, fun page hsent => ?_, fun hbroken => ?_,
    exists_page_iff_of_failure he⟩
  · rw [hpage, Answer.page, Page.ofEnvelope_of_ok hsent]
  · -- A page for what stops the service says nothing of the limit.
    rw [hpage, Answer.page, Page.ofEnvelope_of_not hbroken]
    unfold Page.withAllowance
    split <;> rfl

/-- What the audit log says. It falls into one line for each call, and each line is read as the
fields of its event unless these hold a pair in halves. A request that comes to no compilation
leaves no line; one that comes to a compilation leaves one, which agrees with the envelope that is
sent as its page if it can be. -/
theorem audit_of_calls_and_requests :
    (∀ calls : List (String × Audit.Event), (∀ call ∈ calls, call.2.Writable) →
      ∃ lines, Text.pieces '\n' (Audit.log calls).toList = lines ++ [[]] ∧
        List.Forall₂ Audit.Tells lines calls) ∧
    (∀ (setting : Setting) (server : Server) (visit : Visit),
      (∀ job, ¬Reaches setting server visit job) →
      (server.answer setting visit).record.audit = []) ∧
    ∀ (setting : Setting) (server : Server) (visit : Visit) (job : Compiler.Job),
      Reaches setting server visit job →
      ∃ c e, (compilation setting server job).result = .ok c ∧ Envelope.ofCompilation c = .ok e ∧
        Noted setting server visit job c e :=
  ⟨fun _ h => Audit.exists_pieces_log h, fun _ _ _ h => audit_of_not_reaches h,
    fun _ _ _ _ h => noted_of_reaches h⟩

end Visits

section Sample

-- A request for a contract without imports, whose compiler is at hand and emits it.

def sampleJob : Compiler.Job := ⟨"contract A", "Contract.sol", "0.8.20", true, 200, .paris⟩

def sampleFields : List (String × Value) := [("source_code", .text sampleJob.source)]

def sampleVisit : Visit where
  method := "POST"
  address := ⟨"/compiler/compile", []⟩
  body := "\x7b\"source_code\": \"contract A\"\x7d"
  client := "10.0.0.1"

def sampleContract : Value :=
  Value.ofFields [("evm", Value.ofFields [("bytecode", Value.ofFields [("object", .text "6001")])])]

def sampleOutput : Value :=
  Value.ofFields [("contracts",
    Value.ofFields [("Contract.sol", Value.ofFields [("A", sampleContract)])])]

/-- A setting in which the compiler comes to a run. -/
def settingOf (run : Compiler.Run) : Setting where
  surroundings := ⟨Web.missing, ⟨[]⟩, run⟩
  explorerReply := Web.missing

def sampleSetting : Setting := settingOf (.output sampleOutput)

def sampleRelease : Compiler.Release :=
  ⟨"0.8.20", .text "solc-v0.8.20", "v0.8.20+commit.a1b79de6"⟩

def sampleBinary : Compiler.Binary :=
  ⟨"0.8.20", "v0.8.20+commit.a1b79de6", Compiler.Toolchain.executable "0.8.20", 0⟩

def sampleServer : Server where
  workbench :=
    { catalog := ⟨Compiler.defaultManifest, some [("0.8.20", sampleRelease)], 0⟩
      loader := ⟨[("0.8.20", sampleBinary)], [], 0, 1⟩ }

theorem read_sampleBody :
    Payload.read sampleVisit.contentType sampleVisit.body =
      .ok (.data (Value.ofFields sampleFields)) := by
  have hkept : Json.Kept (Value.ofFields sampleFields) :=
    Json.kept_ofFields (List.nodup_singleton _)
      (List.forall_mem_singleton.mpr (.text (Json.keptText _)))
  have hbody : Json.write (Value.ofFields sampleFields) = .ok sampleVisit.body := by decide +kernel
  have hpoints : Json.pointsOf? sampleVisit.body.toUTF8.toList =
      some (Text.points sampleVisit.body) := by decide +kernel
  exact Payload.read_of_write hkept hbody hpoints

theorem asksFor_sample : AsksFor sampleVisit sampleJob := by
  refine ⟨.data (Value.ofFields sampleFields), read_sampleBody, ?_⟩
  have hread : Compiler.Job.read (Value.ofFields sampleFields) = .ok sampleJob := by
    simp only [Compiler.Job.read, Request.required, Request.withDefault, Value.field?_ofFields]
    rfl
  change Request.Checked.within Payload.step (Compiler.Job.read (Value.ofFields sampleFields)) = _
  rw [hread]
  rfl

theorem reaches_sample (run : Compiler.Run) :
    Reaches (settingOf run) sampleServer sampleVisit sampleJob where
  route := by decide
  method := rfl
  asks := asksFor_sample
  admitted := by
    change ((compilationLimiter defaultLimit).consider (fun _ => false) {} sampleVisit.client
      Route.compile.path).verdict = .admitted
    decide +kernel

theorem getD_single (name : String) (v default : Value) :
    (Value.ofFields [(name, v)]).getD name default = .ok v := by
  simp [Value.getD_ofFields, Ordered.get?]

theorem select_sample :
    ∃ contract, Compiler.select sampleOutput sampleJob.fileName = .ok contract := by
  have hfirst : Compiler.firstContract sampleOutput sampleJob.fileName =
      .ok (.text "A", sampleContract) := by
    have hfile (v : Value) :
        (Value.ofFields [("Contract.sol", v)]).getRaw sampleJob.fileName = .ok (some v) := by
      simp [sampleJob, Value.getRaw, Value.ofFields, Ordered.get?]
    simp only [Compiler.firstContract, sampleOutput, getD_single, hfile, orFail, bind, Except.bind]
    rfl
  have hcode : Compiler.codeOf sampleContract = .ok (.text "6001") := by
    simp only [Compiler.codeOf, sampleContract, getD_single, bind, Except.bind]
  have habi : sampleContract.getD "abi" (.list []) = .ok (.list []) := by
    simp [sampleContract, Value.getD_ofFields, Ordered.get?]
  have hread : Compiler.Contract.read (Value.ofFields [("abi", .list []),
      ("bytecode", .ofRaw ("0x" ++ "6001")), ("contract_name", .text "A")]) =
        .ok ⟨[], "0x" ++ "6001", "A", [], none⟩ := by
    simp only [Compiler.Contract.read, Request.required, Request.withDefault,
      Value.field?_ofFields]
    rfl
  refine ⟨⟨[], "0x" ++ "6001", "A", [], none⟩, ?_⟩
  simp only [Compiler.select, hfirst, hcode, habi, bind, Except.bind, orFail]
  change Compiler.orInvalid ((Compiler.Contract.read (Value.ofFields [("abi", .list []),
      ("bytecode", .ofRaw ("0x" ++ "6001")), ("contract_name", .text "A")])).map _) = _
  rw [hread]
  rfl

/-- With the compiler at hand and nothing to import, a job comes to what the run yields. -/
theorem outcome_settingOf (run : Compiler.Run) :
    (compilation (settingOf run) sampleServer sampleJob).outcome =
      (Compiler.contractOf .standard sampleJob
        ⟨⟨sampleJob.fileName, sampleJob.source⟩, []⟩ run).map fun contract =>
          (contract, sampleBinary) := by
  have hchosen : Compiler.chosen (settingOf run).surroundings sampleServer.workbench sampleJob =
      .ok sampleRelease := by
    simp [Compiler.chosen, Compiler.Catalog.find_eq, Compiler.Catalog.releases,
      Compiler.Catalog.choose, sampleServer, sampleJob, Except.bind, Ordered.get?]
  have hloaded : Compiler.loaded sampleServer.workbench sampleRelease = .ok sampleBinary := rfl
  have hwithin : Source.resolveWithin Source.Library.standard
      (Source.Library.standard.fetch (settingOf run).surroundings.web) 1 sampleJob.source
        sampleJob.fileName = some ⟨.ok ⟨⟨sampleJob.fileName, sampleJob.source⟩, []⟩, []⟩ := by
    dsimp only [sampleJob]
    rfl
  have hresolved : Compiler.resolved .standard (settingOf run).surroundings sampleJob = _ :=
    Source.resolveWithin_unique (Source.resolveWithin_webBound _ _ _ _) hwithin
  rw [compilation, Compiler.compile_outcome, hchosen]
  change (do
    let binary ← Compiler.loaded sampleServer.workbench sampleRelease
    let set ← (Compiler.resolved .standard (settingOf run).surroundings sampleJob).outcome
    (Compiler.contractOf .standard sampleJob set run).map fun contract => (contract, binary)) = _
  rw [hloaded, hresolved]
  rfl

theorem exists_sampleResult :
    ∃ c, (compilation sampleSetting sampleServer sampleJob).result = .ok c ∧ c.success = true ∧
      c.message = some (Compiler.Compilation.successMessage : RawText) := by
  obtain ⟨contract, hselect⟩ := select_sample
  have hdiagnostics : Compiler.diagnostics sampleOutput = .ok [] := by
    simp [Compiler.diagnostics, sampleOutput, Value.getD_ofFields, Ordered.get?, Value.items,
      Compiler.errorsAmong, bind, Except.bind]
  have haccepted : Compiler.accepted sampleOutput = .ok sampleOutput := by
    rw [Compiler.accepted, hdiagnostics]
    rfl
  have houtput : Compiler.Run.output? (.output sampleOutput) = .ok sampleOutput := rfl
  have hresult (contract : Compiler.Contract) :=
    Compiler.Compilation.ofContract_eq contract sampleBinary
  rw [Compiler.Report.result, sampleSetting, outcome_settingOf, Compiler.contractOf, houtput]
  simp only [bind, Except.bind, haccepted, hselect]
  exact ⟨_, hresult _, rfl, rfl⟩

/-- Calls whose texts hold quotes, ends of lines and characters beyond ASCII. -/
def sampleCalls : List (String × Audit.Event) :=
  [("2026-10-05", { fileName := .text "A\n\"success\": true", version := .text "0.8\u00e9" }),
    ("2026-10-06", { fileName := .text "B.sol", version := .text "0.8.20"
                     details := Value.ofFields [("runs", .int (-3))] })]

theorem recordable_sampleCalls : ∀ call ∈ sampleCalls, call.2.Recordable := by
  simp only [sampleCalls, List.forall_mem_cons, Audit.Event.Recordable, Audit.Event.parts]
  refine ⟨⟨.text (Json.keptText _), .text (Json.keptText _), .bool _, .null, .null, .null,
    List.forall_mem_nil _⟩, ⟨.text (Json.keptText _), .text (Json.keptText _), .bool _, .null,
    .null, ?_, List.forall_mem_nil _⟩, List.forall_mem_nil _⟩
  exact Json.kept_ofFields (List.nodup_singleton _)
    (List.forall_mem_singleton.mpr (.int (by decide)))

theorem audit_of_sample :
    (∃ lines, Text.pieces '\n' (Audit.log sampleCalls).toList = lines ++ [[]] ∧
      List.Forall₂ Audit.Tells lines sampleCalls) ∧
    (sampleServer.answer sampleSetting { sampleVisit with method := "GET" }).record.audit = [] ∧
    ∃ c e, (compilation sampleSetting sampleServer sampleJob).result = .ok c ∧
      Envelope.ofCompilation c = .ok e ∧
      Noted sampleSetting sampleServer sampleVisit sampleJob c e := by
  have hget : ∀ job, ¬Reaches sampleSetting sampleServer { sampleVisit with method := "GET" } job :=
    fun job hreaches => absurd hreaches.method (by decide)
  exact ⟨audit_of_calls_and_requests.1 _ fun call hcall =>
      (recordable_sampleCalls call hcall).writable,
    audit_of_calls_and_requests.2.1 _ _ _ hget,
    audit_of_calls_and_requests.2.2 _ _ _ _ (reaches_sample _)⟩

/-- The message of a success is told, but not noted. -/
theorem not_forall_message_noted :
    ¬∀ (setting : Setting) (server : Server) (visit : Visit) (job : Compiler.Job)
      (c : Compiler.Compilation) (e : Envelope), Reaches setting server visit job →
      (compilation setting server job).result = .ok c → Envelope.ofCompilation c = .ok e →
      (Server.event job c).message = Value.ofRaw? e.message := by
  intro h
  obtain ⟨c, hresult, hsuccess, hmessage⟩ := exists_sampleResult
  obtain ⟨c', e, hresult', he, -⟩ := exists_envelope sampleSetting sampleServer sampleJob
  cases hresult.symm.trans hresult'
  have hnoted := h _ _ _ _ _ _ (reaches_sample _) hresult he
  rw [message_of_envelope he, hmessage, Server.event, hsuccess] at hnoted
  cases hnoted

/-- Half of a pair. -/
def brokenMessage : RawText := ⟨[⟨0xD800, by decide⟩]⟩

def brokenReport : Value :=
  Value.ofFields [("severity", .text "error"), ("message", .ofRaw brokenMessage)]

def brokenOutput : Value := Value.ofFields [("errors", .list [brokenReport])]

theorem result_of_brokenOutput :
    (compilation (settingOf (.output brokenOutput)) sampleServer sampleJob).result =
      .ok { success := false, message := some brokenMessage, diagnostics := [brokenMessage] } := by
  have hdiagnostics : Compiler.diagnostics brokenOutput = .ok [.ofRaw brokenMessage] := by
    have hsame : Value.same (.text "error") (.text "error") = true :=
      (Value.same_iff_of_kind rfl).mpr rfl
    simp [Compiler.diagnostics, brokenOutput, brokenReport, Value.getD_ofFields, Ordered.get?,
      Value.items, Compiler.errorsAmong, Compiler.reportOf, Value.isTruthy, hsame, bind,
      Except.bind, pure, Except.pure]
  have htexts : Value.textsFrom 0 [.ofRaw brokenMessage] = .ok [brokenMessage] := by decide
  have haccepted : Compiler.accepted brokenOutput = .error (.compilation [brokenMessage]) := by
    rw [Compiler.accepted, hdiagnostics]
    simp only [orFail, bind, Except.bind, Compiler.failureOf, htexts]
    rfl
  have houtput : Compiler.Run.output? (.output brokenOutput) = .ok brokenOutput := rfl
  rw [Compiler.Report.result, outcome_settingOf, Compiler.contractOf, houtput]
  simp only [bind, Except.bind, haccepted]
  exact Compiler.Compilation.failed_eq brokenMessage [brokenMessage]

/-- A message with half of a pair is noted, but not sent. -/
theorem not_forall_sent :
    ¬∀ (setting : Setting) (server : Server) (visit : Visit) (job : Compiler.Job),
      Reaches setting server visit job → (server.answer setting visit).page ≠ Page.stopped := by
  intro h
  have hreaches := reaches_sample (.output brokenOutput)
  obtain ⟨c, e, hresult, he, hnoted⟩ := noted_of_reaches hreaches
  cases hresult.symm.trans result_of_brokenOutput
  cases he
  refine h _ _ _ _ hreaches (hnoted.stopped fun hsent => ?_)
  obtain ⟨s, hs⟩ := (hnoted.failure rfl).mp hsent brokenMessage List.mem_cons_self
  have hwhole := RawText.string?_eq_some_iff.mpr hs
  cases hwhole

/-- What a request leaves in the log is not always what it is told: the message of a success is left
out, and an answer that cannot be sent is noted. Nor is it always read back: two halves that form a
pair are read as one character. -/
theorem not_forall_told_as_noted :
    (¬∀ (setting : Setting) (server : Server) (visit : Visit) (job : Compiler.Job)
      (c : Compiler.Compilation) (e : Envelope), Reaches setting server visit job →
      (compilation setting server job).result = .ok c → Envelope.ofCompilation c = .ok e →
      (Server.event job c).message = Value.ofRaw? e.message) ∧
    (¬∀ (setting : Setting) (server : Server) (visit : Visit) (job : Compiler.Job),
      Reaches setting server visit job → (server.answer setting visit).page ≠ Page.stopped) ∧
    ¬∀ calls : List (String × Audit.Event), (∀ call ∈ calls, call.2.Writable) →
      ∃ lines, Text.pieces '\n' (Audit.log calls).toList = lines ++ [[]] ∧
        List.Forall₂ (fun line call =>
          Json.read (String.ofList line) = .ok (Value.ofFields (call.2.toFields call.1)))
          lines calls :=
  ⟨not_forall_message_noted, not_forall_sent, Audit.not_forall_read_back⟩

end Sample

end ContractBench.Service
