import ContractBench.Abi.Signature
import ContractBench.Argument.Call
import ContractBench.Audit
import ContractBench.Display
import ContractBench.Service.Address
import ContractBench.Service.Page
import ContractBench.Service.Payload
import ContractBench.Service.Route
import ContractBench.Verification.Explorer

/-! # The server

Answers requests. What lives from one request to the next is the workbench and the counters of
the limiter.
-/

namespace ContractBench.Service

/-- The limiter of compilations. -/
def compilationLimiter (limit : Int) : Limit.Limiter := ⟨limit, 60, "compile_limit"⟩

/-- The limit of compilations within a window unless another is set. -/
def defaultLimit : Int := 20

/-- A request to the service. -/
structure Visit where
  method : String
  address : Address
  contentType : String := "application/json"
  body : String := ""
  /-- The address of the client. -/
  client : String

/-- What the world outside answers during a request, and how the service is set up. -/
structure Setting where
  surroundings : Compiler.Surroundings
  library : Source.Library := .standard
  explorer : Verification.Explorer := {}
  /-- The answer of the explorer. -/
  explorerReply : Reply
  limiter : Limit.Limiter := compilationLimiter defaultLimit
  /-- The kinds of commands that fail at the store of counters. -/
  failing : Limit.CommandKind → Bool := fun _ => false
  /-- The time that the audit log writes. -/
  time : String := ""

/-- What lives from one request to the next. -/
structure Server where
  workbench : Compiler.Workbench := {}
  counters : Limit.Counters := {}

/-- What was done for a request. -/
structure Record where
  /-- The paths of the library that were asked for. -/
  asked : List RawText := []
  /-- The executables that were run, with their inputs. -/
  runs : List (RawText × Compiler.Input) := []
  call : Option Verification.Call := none
  /-- The lines that were added to the audit log. -/
  audit : List String := []

/-- The answer to a request. -/
structure Served where
  page : Page
  server : Server
  record : Record := {}

/-- What an operation comes to. -/
inductive Answer where
  | envelope (e : Envelope)
  | refused (issues : List Request.Issue)
  | problem (p : Problem)

namespace Answer

def page : Answer → Page
  | .envelope e => Page.ofEnvelope 200 e
  | .refused issues => Page.ofIssues issues
  | .problem p => Page.ofNotice (p.notice false)

def ofFailure (failure : Failure) : Answer := .problem (.stopped failure)

/-- The answer with a message and data, or with the failure to get the data. -/
def ofData (message : RawText) : Except Failure Value → Answer
  | .ok data => .envelope (.done message data)
  | .error failure => ofFailure failure

/-- The answer that is made from the fields of a request. -/
def ofFields {α : Type} (payload : Payload) (reader : Request.Reader α) (answer : α → Answer) :
    Answer :=
  match payload.fields reader with
  | .ok x => answer x
  | .error issues => .refused issues

end Answer

namespace Server

section Operations

/-- The entry of the audit log for a compilation. -/
def event (job : Compiler.Job) (result : Compiler.Compilation) : Audit.Event where
  fileName := .ofRaw job.fileName
  version := .ofRaw job.version
  success := .bool result.success
  contractName := .ofRaw? (result.contract.map (·.name))
  message := if result.success then .null else .ofRaw? result.message
  details := Value.ofFields
    [("optimization_enabled", .bool job.optimised), ("optimization_runs", .int job.runs),
      ("evm_version", .text job.evm.name)]

def compilationAnswer (result : Compiler.Compilation) : Answer :=
  match Envelope.ofCompilation result with
  | .ok e => .envelope e
  | .error fault => .ofFailure (.fault fault)

/-- The answer that a compilation is, and the lines that note it in the audit log. A compilation
without result leaves none. -/
def compilationNoted (setting : Setting) (job : Compiler.Job)
    (result : Except Failure Compiler.Compilation) : Answer × List String :=
  match result with
  | .error failure => (.ofFailure failure, [])
  | .ok result =>
      match (event job result).line setting.time with
      | .ok line => (compilationAnswer result, [line])
      -- An entry that cannot be written stops the service, whatever the compilation came to.
      | .error fault => (.ofFailure (.fault fault), [])

/-- Compiles a job and notes it in the audit log. -/
def compileJob (setting : Setting) (server : Server) (job : Compiler.Job) : Served :=
  let report := Compiler.compile setting.library setting.surroundings server.workbench job
  let (answer, audit) := compilationNoted setting job report.result
  { page := answer.page
    server := { server with workbench := report.workbench }
    record := { asked := report.asked, runs := report.runs, audit } }

/-- Compiles what a request asks for, if its client is within the limit. -/
def compile (setting : Setting) (server : Server) (visit : Visit) (payload : Payload) : Served :=
  let admission := setting.limiter.consider setting.failing server.counters visit.client
    Route.compile.path
  -- The request is counted before its fields are read, so one with issues counts as well.
  let server := { server with counters := admission.counters }
  let served : Served :=
    match admission.verdict with
    | .refused seconds => { page := (Answer.problem (.tooMany seconds)).page, server }
    | .admitted =>
        match payload.fields Compiler.Job.read with
        | .error issues => { page := Page.ofIssues issues, server }
        | .ok job => server.compileJob setting job
  { served with page := served.page.withAllowance admission.allowance }

/-- Writes what a request submits as one file. -/
def flatten (setting : Setting) (server : Server) (payload : Payload) : Served :=
  match payload.fields Compiler.FlatteningJob.read with
  | .error issues => { page := Page.ofIssues issues, server }
  | .ok job =>
      let (flattened, asked) := Source.flattenResolved setting.library setting.surroundings.web
        job.source job.fileName
      let answer := Answer.ofData "Fonte achatado com sucesso"
        (flattened.map fun text => Value.ofFields [("flattened_source", .text text)])
      { page := answer.page, server, record := { asked } }

def versions (setting : Setting) (server : Server) : Served :=
  let (versions, catalog) := server.workbench.catalog.versions setting.surroundings.manifest
  let answer := Answer.ofData "Versões disponíveis"
    (versions.map fun versions => Value.ofFields
      [("versions", .ofRaws versions), ("total", .int versions.length)])
  { page := answer.page
    server := { server with workbench := { server.workbench with catalog } } }

/-- The data on an interface: its categories and signatures. -/
def interfaceData (abi : List Value) : Except Failure Value := orFail do
  let categorised ← Abi.categorise (.list abi)
  let signatures ← Abi.signatures categorised
  return Value.ofFields (categorised.toFields ++ [("signatures", .table signatures)])

/-- Separates an interface into categories. -/
def categories (payload : Payload) : Answer :=
  .ofFields payload
    (fun v => Request.required v "abi" (Request.listOf Request.fields))
    fun abi => .ofData "ABI categorizada" (interfaceData abi)

/-- What a request for arguments gives: the inputs of a function and the typed texts. -/
structure Typed where
  inputs : List Value
  /-- The typed texts by the fields of the inputs. -/
  values : List (Value × Option RawText)

/-- Reads a request for arguments. -/
def readTyped : Request.Reader Typed := fun v =>
  ((Request.required v "inputs" (Request.listOf Request.fields)).map Typed.mk).take
    (Request.withDefault v "values" [] (Request.tableOf (Request.optional Request.text)))

/-- The answer to a request for arguments. A failure names the field. -/
def argumentsAnswer (typed : Typed) : Answer :=
  let values := Value.table (typed.values.map fun (key, t) => (key, .ofRaw? t))
  match Argument.arguments (.list typed.inputs) values with
  | .ok args =>
      .envelope (.done "Argumentos convertidos" (Value.ofFields [("args", .list args)]))
  | .error (.argument _ message field) => .problem (.invalidField message (field.getD .null))
  | .error failure => .ofFailure failure

/-- Reads typed texts as the arguments of a call. -/
def arguments (payload : Payload) : Answer := .ofFields payload readTyped argumentsAnswer

def display (payload : Payload) : Answer :=
  .ofFields payload
    (fun v => Request.withDefault v "result" .null Request.anything)
    fun result => .ofData "Resultado formatado"
      ((orFail (Display.shown result)).map fun shown => Value.ofFields [("result", shown)])

/-- The answer to a submission. One that is not accepted is a failure. -/
def submissionAnswer (submission : Verification.Submission)
    (receipt : Verification.Receipt) : Answer :=
  if receipt.accepted then
    match Verification.Network.find? (.int submission.chain) with
    | some network =>
        .envelope (.done "Verificação enviada. Consultando status..." (Value.ofFields
          [("guid", receipt.ticket), ("status", .text "pending"),
            ("verification_url", .text (network.contractPage submission.address))]))
    -- A submission for an unknown network is not accepted to begin with.
    | none => .ofFailure (.fault (.noOperation .null "block_explorer"))
  else
    match receipt.message.shown with
    | .ok message => .ofFailure (.verification message)
    | .error fault => .ofFailure (.fault fault)

def submit (setting : Setting) (server : Server) (payload : Payload) : Served :=
  match payload.fields Verification.Submission.read with
  | .error issues => { page := Page.ofIssues issues, server }
  | .ok submission =>
      let outcome := setting.explorer.submit setting.explorerReply submission
      let answer :=
        match outcome.result with
        | .ok receipt => submissionAnswer submission receipt
        | .error failure => .ofFailure failure
      { page := answer.page, server, record := { call := outcome.call } }

/-- What a request for the standing of a verification gives. -/
structure Enquiry where
  ticket : String
  chain : Int

/-- Reads a request for the standing of a verification from the parameters of its address. -/
def readEnquiry (address : Address) : Request.Checked Enquiry :=
  let given := Value.ofFields
    (["guid", "chain_id"].filterMap fun name =>
      (address.value? name).map fun s => (name, .text s))
  Request.Checked.within (.name "query")
    (((Request.required given "guid" (Request.sized 1 none Request.soundText)).map Enquiry.mk).take
      (Request.required given "chain_id" Request.wholeNumber))

/-- The answer to a request for the standing of a verification. Its status has to be a text. -/
def standingAnswer (enquiry : Enquiry) (standing : Verification.Standing) : Answer :=
  match Envelope.ofParts standing.passed standing.status
      (Value.ofFields [("guid", .text enquiry.ticket), ("status", standing.status)]) .null with
  | .ok e => .envelope e
  | .error issues => .ofFailure (.invalid issues)

def standing (setting : Setting) (server : Server) (visit : Visit) : Served :=
  match readEnquiry visit.address with
  | .error issues => { page := Page.ofIssues issues, server }
  | .ok enquiry =>
      let outcome := setting.explorer.standing setting.explorerReply enquiry.ticket
        (.int enquiry.chain)
      let answer :=
        match outcome.result with
        | .ok standing => standingAnswer enquiry standing
        | .error failure => .ofFailure failure
      { page := answer.page, server, record := { call := outcome.call } }

def root : Answer :=
  .envelope (.done "API SolForge" (Value.ofFields
    [("name", .text "SolForge API"), ("version", .text "0.1.0"), ("status", .text "running")]))

def health (setting : Setting) (server : Server) : Answer :=
  .envelope (.done "Sistema operacional" (Value.ofFields
    [("status", .text "healthy"), ("timestamp", .text setting.time),
      ("loaded_compilers", .ofRaws server.workbench.loader.versions)]))

end Operations

/-- Answers a request with a body at a route. -/
def answerWith (setting : Setting) (server : Server) (visit : Visit) (payload : Payload) :
    Route → Served
  | .compile => server.compile setting visit payload
  | .flatten => server.flatten setting payload
  | .categories => { page := (categories payload).page, server }
  | .arguments => { page := (arguments payload).page, server }
  | .display => { page := (display payload).page, server }
  | .submit => server.submit setting payload
  | .versions => server.versions setting
  | .standing => server.standing setting visit
  | .root => { page := root.page, server }
  | .health => { page := (server.health setting).page, server }

/-- Answers a request at a route. A body that cannot be read is refused before anything else. -/
def answerAt (setting : Setting) (server : Server) (visit : Visit) (route : Route) : Served :=
  if route.method = "POST" then
    match Payload.read visit.contentType visit.body with
    | .ok payload => server.answerWith setting visit payload route
    | .error .malformed => { page := Page.malformed, server }
    | .error .unreadable => { page := Page.unreadable, server }
  else
    server.answerWith setting visit .missing route

/-- Answers a request. -/
def answer (setting : Setting) (server : Server) (visit : Visit) : Served :=
  let served : Served :=
    match Route.for? visit.address.path with
    | none => { page := Page.notFound, server }
    | some route =>
        if route.method = visit.method then server.answerAt setting visit route
        else { page := Page.notAllowed route.method, server }
  if visit.method = "HEAD" then { served with page := served.page.bare } else served

end Server

end ContractBench.Service
