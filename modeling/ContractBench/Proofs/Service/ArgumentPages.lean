import ContractBench.Proofs.Argument.Agreement
import ContractBench.Proofs.Argument.Refusals
import ContractBench.Proofs.Service.Sending

/-! # Answers to requests for arguments

A request for arguments gets the arguments of its form, or a refusal that names the first field that
cannot be read. It stops the service in two cases: where the type of that field sets a length that
is itself too long to be read, and where an argument that was typed as JSON holds a broken text.
-/

namespace ContractBench

open Value (IsData IsWhole)

namespace Argument

section Data

variable {values x : Value} {inputs args : List Value} {fields : List Field} {type text : String}
  {cs : List Char}

theorem isData_of_scalar? {base : String} (h : scalar? base cs = some x) : IsData x := by
  unfold scalar? at h
  dsimp only at h
  split at h
  next => cases h
  next =>
    split at h <;> cases h <;> exact .leaf trivial rfl

theorem isData_of_scalars? {base : String} {pieces : List (List Char)} {xs : List Value}
    (h : scalars? base pieces = some xs) : ∀ x ∈ xs, IsData x := by
  induction pieces generalizing xs with
  | nil =>
      cases h
      exact List.forall_mem_nil _
  | cons piece pieces ih =>
      obtain ⟨x, hx, hrest⟩ := Option.bind_eq_some_iff.mp h
      obtain ⟨more, hmore, hdone⟩ := Option.bind_eq_some_iff.mp hrest
      cases hdone
      exact List.forall_mem_cons.mpr ⟨isData_of_scalar? hx, ih hmore⟩

/-- What is typed is read as data, in whatever way its type is read. -/
theorem isData_of_readAs {way : ArgumentType} (h : readAs type way cs = .ok x) : IsData x := by
  cases way with
  | scalar name =>
      cases h
      cases hscalar : scalar? name cs with
      | none => exact Value.isData_null
      | some x => exact isData_of_scalar? hscalar
  | array base =>
      obtain ⟨xs, hxs, rfl⟩ := exists_elements_of_readAs (Or.inl rfl) h
      exact ⟨trivial, isData_of_scalars? hxs⟩
  | fixedArray base length =>
      obtain ⟨xs, hxs, rfl⟩ := exists_elements_of_readAs (Or.inr ⟨length, rfl⟩) h
      exact ⟨trivial, isData_of_scalars? hxs⟩
  | tuple | nested => exact Json.isData_of_read (read_of_isJson rfl h)

theorem isData_of_read (h : read text type = .ok (some x)) : IsData x := by
  unfold read at h
  dsimp only at h
  split at h
  next => cases h
  next =>
    obtain ⟨way, -, hread⟩ := bind_eq_ok_iff.mp h
    obtain ⟨found, hfound, hdone⟩ := bind_eq_ok_iff.mp hread
    cases hdone
    exact isData_of_readAs hfound

/-- The arguments of a form are data. -/
theorem isData_of_arguments (hvalues : IsForm values) (hfields : HasFields 0 inputs fields)
    (h : arguments (.list inputs) values = .ok args) : ∀ arg ∈ args, IsData arg := by
  obtain ⟨found, hfound, rfl⟩ := (arguments_eq_ok_iff hvalues hfields).mp h
  intro arg harg
  rw [List.reduceOption_mem_iff] at harg
  obtain ⟨field, -, hfield⟩ :=
    (exists_of_forall₂_mem (mapM_eq_ok_iff.mp hfound)).2 (some arg) harg
  exact isData_of_read (Field.argument_eq_ok_iff.mp hfield)

end Data

theorem HasFields.key_ne_empty {position : Nat} {inputs : List Value} {fields : List Field}
    (h : HasFields position inputs fields) : ∀ field ∈ fields, field.key ≠ "" := by
  induction h with
  | nil => exact List.forall_mem_nil _
  | @cons position input name? type inputs fields _ _ _ ih =>
      refine List.forall_mem_cons.mpr ⟨?_, ih⟩
      change (name?.filter (· != "")).getD ("param" ++ toString position) ≠ ""
      cases hname : name?.filter (· != "") with
      | none => simp
      | some name => simpa using (Option.mem_filter_iff.mp hname).2

end Argument

namespace Service

open Argument

/-- The form that a request for arguments fills in. -/
def Server.Typed.form (typed : Server.Typed) : Value :=
  .table (typed.values.map fun (key, t) => (key, .ofRaw? t))

section Answers

variable {setting : Setting} {server : Server} {visit : Visit} {payload : Payload}
  {typed : Server.Typed} {fields : List Field} {field : Field} {args : List Value}

theorem argumentsAnswer_eq (typed : Server.Typed) :
    Server.argumentsAnswer typed =
      match arguments (.list typed.inputs) typed.form with
      | .ok args =>
          .envelope (.done "Argumentos convertidos" (Value.ofFields [("args", .list args)]))
      | .error (.argument _ message field) => .problem (.invalidField message (field.getD .null))
      | .error failure => .ofFailure failure := rfl

theorem page_of_arguments (h : Brings visit .arguments payload)
    (htyped : payload.fields Server.readTyped = .ok typed) :
    (server.answer setting visit).page = (Server.argumentsAnswer typed).page := by
  rw [answer_of_brings h, Server.answerWith, Server.arguments, Answer.ofFields, htyped]

/-- Arguments are sent unless a text in them is broken. -/
theorem page_of_read (hvalues : IsForm typed.form) (hfields : HasFields 0 typed.inputs fields)
    (hargs : arguments (.list typed.inputs) typed.form = .ok args) :
    ((∀ arg ∈ args, IsWhole arg) → (Server.argumentsAnswer typed).page.status = 200) ∧
      (¬(∀ arg ∈ args, IsWhole arg) → (Server.argumentsAnswer typed).page = Page.stopped) := by
  have hdata : IsData (Value.ofFields [("args", .list args)]) := by
    refine Json.isData_ofFields (List.nodup_singleton _) (List.forall_mem_singleton.mpr ?_)
    exact ⟨trivial, isData_of_arguments hvalues hfields hargs⟩
  have hwhole : IsWhole (Value.ofFields [("args", .list args)]) ↔ ∀ arg ∈ args, IsWhole arg := by
    rw [Page.isWhole_ofFields, List.forall_mem_singleton]
    exact Value.throughout_iff.trans (and_iff_right trivial)
  have hanswer : Server.argumentsAnswer typed =
      .envelope (.done "Argumentos convertidos" (Value.ofFields [("args", .list args)])) := by
    rw [argumentsAnswer_eq, hargs]
  rw [hanswer, ← hwhole]
  exact Answer.status_done hdata

/-- A refusal of a text is sent with the key of its field. -/
theorem page_of_refused {form : ArgumentForm} {message key : String} (hkey : key ≠ "")
    (herror : arguments (.list typed.inputs) typed.form =
      .error (.argument form message (some (.text key)))) :
    Page.ofFields 422 (Envelope.failed message [("field", .text key)]).toFields =
      .ok (Server.argumentsAnswer typed).page := by
  have hnamed : Problem.namedField (.text key) = .text key :=
    if_pos (by simpa [Value.isTruthy] using hkey)
  have hanswer : Server.argumentsAnswer typed = .problem (.invalidField message (.text key)) := by
    rw [argumentsAnswer_eq, herror]
    rfl
  have hmessage : IsWhole (.ofRaw message) := Value.isWhole_ofRaw_iff.mpr ⟨message, rfl⟩
  obtain ⟨page, hpage⟩ : ∃ page,
      Page.ofFields 422 (Envelope.failed message [("field", .text key)]).toFields = .ok page := by
    refine (Page.exists_toFields_iff Value.isData_null ?_).mpr
      ⟨hmessage, Value.isWhole_null, ?_⟩
    · exact Json.isData_ofFields (List.nodup_singleton _)
        (List.forall_mem_singleton.mpr (.leaf trivial rfl))
    · exact Page.isWhole_ofFields.mpr (List.forall_mem_singleton.mpr (.leaf trivial rfl))
  have hheaders : page.headers = [] := by
    obtain ⟨w, -, hwritten⟩ := bind_eq_ok_iff.mp hpage
    obtain ⟨text, -, hdone⟩ := bind_eq_ok_iff.mp hwritten
    cases hdone
    rfl
  rw [hanswer, Answer.page, Problem.notice, Page.ofNotice, hnamed, Page.ofEnvelope_of_ok hpage,
    hpage]
  cases page
  cases hheaders
  rfl

theorem page_of_unread {fault : Fault}
    (herror : arguments (.list typed.inputs) typed.form = .error (.fault fault)) :
    (Server.argumentsAnswer typed).page = Page.stopped := by
  rw [argumentsAnswer_eq, herror]
  exact Answer.page_ofFault fault

/-- Arguments are read, or the first field that cannot be read is refused. The refusal is one of
what is typed and names the field, unless the type of the field sets a length that is itself too
long to be read. A request for arguments gets them where no text in them is broken, and gets the
refusal with the key of the field; with a broken text or a type of that kind it stops the
service. -/
theorem refusals_named {values : Value} {inputs : List Value} {fields : List Field}
    (hvalues : IsForm values) (hfields : HasFields 0 inputs fields) :
    ((∃ args, arguments (.list inputs) values = .ok args) ∨
      ∃ field, FirstRefused values fields field) ∧
    (∀ field, FirstRefused values fields field →
      (¬HasLongLength field.type → ∃ form, ∃ message : String, form ≠ .general ∧
        arguments (.list inputs) values =
          .error (.argument form message (some (.text field.key)))) ∧
      (HasLongLength field.type →
        arguments (.list inputs) values = .error (.fault .numeralTooLong))) ∧
    ∀ (setting : Setting) (server : Server) (visit : Visit) (payload : Payload)
      (typed : Server.Typed), Brings visit .arguments payload →
      payload.fields Server.readTyped = .ok typed → typed.inputs = inputs → typed.form = values →
      (∀ args, arguments (.list inputs) values = .ok args →
        ((∀ arg ∈ args, IsWhole arg) → (server.answer setting visit).page.status = 200) ∧
        (¬(∀ arg ∈ args, IsWhole arg) → (server.answer setting visit).page.status = 500)) ∧
      ∀ field, FirstRefused values fields field →
        (¬HasLongLength field.type → ∃ message : String,
          Page.ofFields 422 (Envelope.failed message [("field", .text field.key)]).toFields =
            .ok (server.answer setting visit).page) ∧
        (HasLongLength field.type → (server.answer setting visit).page.status = 500) := by
  refine ⟨arguments_cases hvalues hfields,
    fun field => arguments_of_firstRefused hvalues hfields, ?_⟩
  rintro setting server visit payload typed hbrings htyped rfl rfl
  rw [page_of_arguments hbrings htyped]
  refine ⟨fun args hargs => ?_, fun field hfirst => ?_⟩
  · obtain ⟨hwhole, hbroken⟩ := page_of_read hvalues hfields hargs
    exact ⟨hwhole, fun h => congrArg Page.status (hbroken h)⟩
  · obtain ⟨hshort, hlong⟩ := arguments_of_firstRefused hvalues hfields hfirst
    refine ⟨fun htype => ?_, fun htype => congrArg Page.status (page_of_unread (hlong htype))⟩
    obtain ⟨form, message, -, herror⟩ := hshort htype
    obtain ⟨before, after, rfl, -⟩ := hfirst
    have hkey : field.key ≠ "" := hfields.key_ne_empty field (by simp)
    exact ⟨message, page_of_refused hkey herror⟩

end Answers

section Samples

/-- A request for two numbers, of which one is typed. -/
def fewFields : List (String × Value) :=
  [("inputs", .list [inputOf none "int8[2]"]), ("values", .ofFields [("param0", .text "7")])]

def fewVisit : Visit where
  method := "POST"
  address := ⟨Route.arguments.path, []⟩
  body := "\x7b\"inputs\": [\x7b\"type\": \"int8[2]\"\x7d], " ++
    "\"values\": \x7b\"param0\": \"7\"\x7d\x7d"
  client := "10.0.0.1"

def fewTyped : Server.Typed := ⟨[inputOf none "int8[2]"], [(.text "param0", some "7")]⟩

def fewField : Field := ⟨"param0", "int8[2]"⟩

theorem brings_few : Brings fewVisit .arguments (.data (.ofFields fewFields)) where
  posted := rfl
  route := by decide
  method := rfl
  read := by
    have hinput : Json.Kept (inputOf none "int8[2]") :=
      Json.kept_ofFields (List.nodup_singleton _)
        (List.forall_mem_singleton.mpr (.text (Json.keptText _)))
    have hvalues : Json.Kept (.ofFields [("param0", .text "7")]) :=
      Json.kept_ofFields (List.nodup_singleton _)
        (List.forall_mem_singleton.mpr (.text (Json.keptText _)))
    have hkept : Json.Kept (.ofFields fewFields) := by
      refine Json.kept_ofFields (by decide : ["inputs", "values"].Nodup) ?_
      simp only [fewFields, List.forall_mem_cons]
      exact ⟨.list (List.forall_mem_singleton.mpr hinput), hvalues, List.forall_mem_nil _⟩
    have hwrite : Json.write (.ofFields fewFields) = .ok fewVisit.body := by decide +kernel
    have hpoints : Json.pointsOf? fewVisit.body.toUTF8.toList =
        some (Text.points fewVisit.body) := by decide +kernel
    exact Payload.read_of_write hkept hwrite hpoints

theorem readTyped_few :
    (Payload.data (.ofFields fewFields)).fields Server.readTyped = .ok fewTyped := by
  have hread : Server.readTyped (.ofFields fewFields) = .ok fewTyped := by
    simp only [Server.readTyped, Request.required, Request.withDefault, Value.field?_ofFields]
    rfl
  change Request.Checked.within Payload.step (Server.readTyped (.ofFields fewFields)) = _
  rw [hread]
  rfl

theorem hasFields_few : HasFields 0 fewTyped.inputs [fewField] :=
  .cons (get_inputOf none "int8[2]") (need_inputOf none "int8[2]") (.nil 1)

theorem firstRefused_few : FirstRefused fewTyped.form [fewField] fewField := by
  have hrefused : (fewField.read fewTyped.form).isOk = false := by decide +kernel
  refine ⟨[], [], rfl, List.forall_mem_nil _, fun x hx => ?_⟩
  rw [hx] at hrefused
  cases hrefused

theorem refusals_named_of_few :
    (Brings fewVisit .arguments (.data (.ofFields fewFields)) ∧
      (Payload.data (.ofFields fewFields)).fields Server.readTyped = .ok fewTyped ∧
      IsForm fewTyped.form ∧ HasFields 0 fewTyped.inputs [fewField] ∧
      FirstRefused fewTyped.form [fewField] fewField ∧ ¬HasLongLength fewField.type) ∧
    (∃ form, ∃ message : String, form ≠ .general ∧
      arguments (.list fewTyped.inputs) fewTyped.form =
        .error (.argument form message (some (.text "param0")))) ∧
    ∃ message : String,
      Page.ofFields 422 (Envelope.failed message [("field", .text "param0")]).toFields =
        .ok (({} : Server).answer .idle fewVisit).page := by
  have hshort : ¬HasLongLength fewField.type := by
    intro hlong
    have hway : ArgumentType.ofText fewField.type = .ok (.fixedArray "int8" 2) := by
      decide +kernel
    rw [ofText_eq_error_iff.mpr ⟨rfl, hlong⟩] at hway
    cases hway
  have hform : IsForm fewTyped.form := ⟨_, rfl, by simp [fewTyped, Value.ofRaw?]⟩
  obtain ⟨-, hrefused, hpages⟩ := refusals_named hform hasFields_few
  obtain ⟨-, hanswer⟩ := hpages .idle {} fewVisit _ fewTyped brings_few readTyped_few rfl rfl
  exact ⟨⟨brings_few, readTyped_few, hform, hasFields_few, firstRefused_few, hshort⟩,
    (hrefused fewField firstRefused_few).1 hshort, (hanswer fewField firstRefused_few).1 hshort⟩

/-- The length of an array with one digit too many. -/
def longDigits : List Char := List.replicate (Numeral.longest + 1) '1'

def longField : Field := ⟨"a", String.ofList ("uint256".toList ++ '[' :: (longDigits ++ [']']))⟩

theorem hasLongLength_longField : HasLongLength longField.type := by
  have hdigit : ∀ c ∈ longDigits, c = '1' := fun c hc => List.eq_of_mem_replicate hc
  refine ⟨"uint256".toList, longDigits, ?_, by decide, by decide, by decide, by decide, ?_, ?_⟩
  · rw [longField, String.toList_ofList]
    apply Text.trim_of_unblank
    intro c hc
    simp only [List.mem_append, List.mem_cons, List.not_mem_nil, or_false] at hc
    rcases hc with hc | rfl | hc | rfl
    · exact (by decide : ∀ c ∈ "uint256".toList, Text.isBlank c = false) c hc
    · decide
    · rw [hdigit c hc]
      decide
    · decide
  · intro c hc
    rw [hdigit c hc]
    decide
  · rw [longDigits, List.length_replicate]
    exact Nat.lt_succ_self _

/-- A type whose length has too many digits is a failure that is not told of any field. -/
theorem not_forall_named :
    ¬∀ (values : Value) (inputs : List Value) (fields : List Field), IsForm values →
      HasFields 0 inputs fields →
      (∃ args, arguments (.list inputs) values = .ok args) ∨
      ∃ field ∈ fields, ∃ (form : ArgumentForm) (message : RawText),
        arguments (.list inputs) values =
          .error (.argument form message (some (.text field.key))) := by
  intro h
  have hform : IsForm (.ofFields [("a", .text "1")]) := by
    refine ⟨_, rfl, ?_⟩
    simp
  have hfields : HasFields 0 [inputOf (some "a") longField.type] [longField] :=
    .cons (get_inputOf (some "a") _) (need_inputOf (some "a") _) (.nil 1)
  have hread : longField.read (.ofFields [("a", .text "1")]) = .error (.fault .numeralTooLong) := by
    have htyped : textUnder (.ofFields [("a", .text "1")]) longField.key = "1" := by
      simp [textUnder, longField, Value.field?_ofFields, Ordered.get?, Value.text?]
    have hsome : ¬Text.trim "1".toList = [] := by decide
    rw [Field.read, htyped, Argument.read, if_neg hsome,
      ofText_eq_error_iff.mpr ⟨rfl, hasLongLength_longField⟩]
    rfl
  have hfirst : FirstRefused (.ofFields [("a", .text "1")]) [longField] longField := by
    refine ⟨[], [], rfl, List.forall_mem_nil _, fun x hx => ?_⟩
    rw [hread] at hx
    cases hx
  have herror := (arguments_of_firstRefused hform hfields hfirst).2 hasLongLength_longField
  rcases h _ _ _ hform hfields with ⟨args, hargs⟩ | ⟨field, -, form, message, hrefused⟩
  · rw [hargs] at herror
    cases herror
  · rw [hrefused] at herror
    cases herror

end Samples

end Service

end ContractBench
