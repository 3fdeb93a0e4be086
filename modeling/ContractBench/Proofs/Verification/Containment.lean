import ContractBench.Proofs.Encoding.Stopping
import ContractBench.Proofs.Numeral
import ContractBench.Verification.Explorer

/-! # Submissions and what stops them

A submission is answered with a receipt unless a number in it is too long, the declarations of its
constructor stop the encoding, or the explorer answers with JSON that is no table. Arguments that
cannot be encoded do not keep it from being sent.
-/

namespace ContractBench

namespace Request

variable {α : Type} {reader : Reader α}

theorem exists_of_mem_itemsFrom {position : Nat} {xs : List Value} {as : List α} {a : α}
    (h : itemsFrom reader position xs = .ok as) (ha : a ∈ as) : ∃ x, reader x = .ok a := by
  induction xs generalizing position as with
  | nil =>
      cases h
      cases ha
  | cons x xs ih =>
      obtain ⟨f, bs, hf, hbs, rfl⟩ := Checked.take_eq_ok_iff.mp h
      obtain ⟨b, hb, rfl⟩ := Checked.map_eq_ok_iff.mp hf
      rcases List.mem_cons.mp ha with rfl | ha
      · exact ⟨x, Checked.within_eq_ok_iff.mp hb⟩
      · exact ih hbs ha

/-- What is read in a list has been read. -/
theorem exists_of_mem_listOf {v : Value} {as : List α} {a : α} (h : listOf reader v = .ok as)
    (ha : a ∈ as) : ∃ x, reader x = .ok a := by
  cases v with
  | list xs => exact exists_of_mem_itemsFrom h ha
  | tuple xs => exact exists_of_mem_itemsFrom h ha
  | record fields => exact exists_of_mem_itemsFrom h ha
  | _ => cases h

theorem exists_table_of_fields {v a : Value} (h : fields v = .ok a) :
    ∃ entries, a = .table entries := by
  obtain ⟨read, -, rfl⟩ := Checked.map_eq_ok_iff.mp h
  exact ⟨_, rfl⟩

end Request

namespace Verification

theorem Submission.allTables_abi {v : Value} {s : Submission} (h : Submission.read v = .ok s) :
    Encoding.AllTables s.abi := by
  simp only [Submission.read, Request.Checked.take_eq_ok_iff, Request.Checked.map_eq_ok_iff] at h
  -- The fields are taken one after the other; the interface is the sixth.
  obtain ⟨_, _, ⟨_, _, ⟨_, _, ⟨_, _, ⟨_, abi, hbefore, habi, rfl⟩, -, rfl⟩, -, rfl⟩, -, rfl⟩,
    -, rfl⟩ := h
  obtain ⟨_, _, ⟨_, _, ⟨_, _, ⟨_, _, ⟨_, -, rfl⟩, -, rfl⟩, -, rfl⟩, -, rfl⟩, -, rfl⟩ := hbefore
  intro entry hentry
  unfold Request.withDefault at habi
  split at habi
  · obtain ⟨x, hx⟩ := Request.exists_of_mem_listOf (Request.Checked.within_eq_ok_iff.mp habi) hentry
    exact Request.exists_table_of_fields hx
  · cases habi
    cases hentry

theorem Network.same_chain_iff {chain other : Int} :
    (Value.int other).same (.int chain) = true ↔ other = chain := by
  simp [Value.same, Value.sameQuantity, Value.quantity?, Quantity.ofInt, Quantity.same,
    Quantity.aligned]

theorem Network.find?_ne_none {network : Network} (h : network ∈ Network.all) :
    Network.find? (.int network.chain) ≠ none := by
  intro hnone
  exact List.find?_eq_none.mp hnone network h (Network.same_chain_iff.mpr rfl)

theorem Network.chain_of_find? {chain : Int} {network : Network}
    (h : Network.find? (.int chain) = some network) : network.chain = chain := by
  unfold Network.find? at h
  have hsame := List.find?_some h
  exact Network.same_chain_iff.mp hsame

/-- The number of a known network is short enough to be written. -/
theorem Network.print?_of_find? {chain : Int} {network : Network}
    (h : Network.find? (.int chain) = some network) : Numeral.print? chain ≠ none := by
  have hall : ∀ network ∈ Network.all, Numeral.print? network.chain ≠ none := by decide
  rw [← Network.chain_of_find? h]
  exact hall network (List.mem_of_find?_eq_some h)

namespace Explorer

variable {explorer : Explorer} {reply : Reply} {s : Submission} {key : String} {failure : Failure}

/-- The declarations of the constructor stop the encoding of the arguments of a submission. -/
def ArgumentsStop (s : Submission) (failure : Failure) : Prop :=
  ∃ inputs, Encoding.Declares s.abi inputs ∧ inputs.isTruthy = true ∧ s.arguments ≠ [] ∧
    Encoding.Stops inputs s.arguments failure

/-- Nothing keeps a submission from being prepared: its network is known, and there is a key. -/
structure Prepares (explorer : Explorer) (s : Submission) (key : String) : Prop where
  known : Network.find? (.int s.chain) ≠ none
  keyed : explorer.key = some key

/-- What a submission stops with, instead of a receipt. -/
inductive Raises (explorer : Explorer) (reply : Reply) (s : Submission) : Failure → Prop
  | chain (hunknown : Network.find? (.int s.chain) = none)
      (hlong : Numeral.print? s.chain = none) :
      Raises explorer reply s (.fault .numeralTooLong)
  | runs {key : String} (hprepares : explorer.Prepares s key)
      (hlong : Numeral.print? s.runs = none) : Raises explorer reply s (.fault .numeralTooLong)
  | arguments {key : String} {failure : Failure} (hprepares : explorer.Prepares s key)
      (hruns : Numeral.print? s.runs ≠ none) (hstop : ArgumentsStop s failure) :
      Raises explorer reply s failure
  | answer {key : String} {response : Response} {answer : Value}
      (hprepares : explorer.Prepares s key) (hruns : Numeral.print? s.runs ≠ none)
      (hstop : ∀ failure, ¬ArgumentsStop s failure) (hreply : reply = .ok response)
      (hstatus : response.isError = false) (hjson : response.json = .ok answer)
      (htable : ∀ entries, answer ≠ .table entries) :
      Raises explorer reply s (.fault (.noOperation answer.kind "get"))

/-- The explorer answers, or the call fails in a way that leaves no usable answer. -/
def Answers (reply : Reply) : Prop :=
  ∀ failure, reply = .error failure → ∃ kind message, failure = .outage kind message ∧
    kind.isUnusableAnswer = true

/-- The explorer takes a submission: it answers with a table that says so. -/
def Accepts (reply : Reply) : Prop :=
  ∃ response entries, reply = .ok response ∧ response.isError = false ∧
    response.json = .ok (.table entries) ∧
    Ordered.get? entries (.text "status") = some (.text "1")

section Form

theorem encodedArguments_eq_error_iff (habi : Encoding.AllTables s.abi) :
    encodedArguments s = .error failure ↔ ArgumentsStop s failure := by
  constructor
  · intro h
    unfold encodedArguments at h
    split at h
    next => cases h
    next hother =>
      exact (Encoding.constructorArguments_eq_error_iff habi fun message hmessage =>
        hother message (h.trans (congrArg Except.error hmessage))).mp h
  · rintro ⟨inputs, hdeclares, hinputs, hargs, hstops⟩
    have harguments := (Encoding.constructorArguments_eq_error_iff habi hstops.ne_verification).mpr
      ⟨inputs, hdeclares, hinputs, hargs, hstops⟩
    unfold encodedArguments
    rw [harguments]
    split
    next heq => exact absurd (Except.error.inj heq) (hstops.ne_verification _)
    next => rfl

/-- The form of a submission to a known network is there unless the runs are too many to be written,
or the declarations stop the arguments. -/
theorem formOf_eq_error_iff (habi : Encoding.AllTables s.abi)
    (hchain : Numeral.print? s.chain ≠ none) :
    formOf s key = .error failure ↔
      (Numeral.print? s.runs = none ∧ failure = .fault .numeralTooLong) ∨
        (Numeral.print? s.runs ≠ none ∧ ArgumentsStop s failure) := by
  obtain ⟨chain, hchain⟩ := Option.ne_none_iff_exists'.mp hchain
  rw [formOf, orFail_eq_ok.mpr (Value.printInt_eq_ok_iff.mpr hchain)]
  cases hruns : Numeral.print? s.runs with
  | none =>
      have hlong := Value.printInt_eq_error_iff.mpr ⟨hruns, rfl⟩
      simp [bind, Except.bind, orFail, hlong, eq_comm]
  | some runs =>
      rw [orFail_eq_ok.mpr (Value.printInt_eq_ok_iff.mpr hruns),
        ← encodedArguments_eq_error_iff habi]
      cases encodedArguments s with
      | error other => simp [bind, Except.bind]
      | ok encoded =>
          cases encoded with
          | none => simp [bind, Except.bind, pure, Except.pure]
          | some encoded =>
              simp only [bind, Except.bind]
              split <;> simp [pure, Except.pure]

/-- Arguments that cannot be encoded are left out. -/
theorem formOf_of_verification {chain runs : String} {message : RawText}
    (hchain : Numeral.print? s.chain = some chain) (hruns : Numeral.print? s.runs = some runs)
    (harguments : Encoding.constructorArguments (.list s.abi) (.list s.arguments) =
      .error (.verification message)) : formOf s key = .ok (baseForm s key chain runs) := by
  have hencoded : encodedArguments s = .ok none := by rw [encodedArguments, harguments]
  rw [formOf, orFail_eq_ok.mpr (Value.printInt_eq_ok_iff.mpr hchain),
    orFail_eq_ok.mpr (Value.printInt_eq_ok_iff.mpr hruns), hencoded]
  rfl

end Form

section Answer

theorem same_text_iff {v : Value} {text : String} :
    v.same (.text text) = true ↔ v = .text text := by
  cases v <;>
    simp [Value.same, Value.isNull, Value.sameQuantity, Value.quantity?, Value.tupleItems?]

theorem isDone_table (entries : List (Value × Value)) :
    isDone (.table entries) =
      .ok (((Ordered.get? entries (.text "status")).getD .null).same (.text "1")) := rfl

/-- An answer that is a table gives a receipt, which says what the answer's status says. -/
theorem exists_receiptOf_table (entries : List (Value × Value)) :
    ∃ receipt, receiptOf (.table entries) = .ok receipt ∧
      (receipt.accepted = true ↔
        Ordered.get? entries (.text "status") = some (.text "1")) := by
  have hstatus : ((Ordered.get? entries (.text "status")).getD .null).same (.text "1") = true ↔
      Ordered.get? entries (.text "status") = some (.text "1") := by
    rw [same_text_iff]
    cases Ordered.get? entries (.text "status") <;> simp
  rw [← hstatus, receiptOf, isDone_table]
  cases ((Ordered.get? entries (.text "status")).getD .null).same (.text "1") with
  | true => exact ⟨_, rfl, by simp⟩
  | false => exact ⟨_, rfl, by simp⟩

theorem receiptOf_of_not_table {answer : Value} (h : ∀ entries, answer ≠ .table entries) :
    receiptOf answer = .error (.noOperation answer.kind "get") := by
  cases answer with
  | table entries => exact absurd rfl (h entries)
  | _ => rfl

/-- A reply is a table, JSON of another kind, or unusable: a failed call, a status that reports an
error, or a body that is not JSON. -/
theorem receiptOfReply_cases (address : String) (hreply : Answers reply) :
    (∃ response entries, reply = .ok response ∧ response.isError = false ∧
      response.json = .ok (.table entries) ∧
      receiptOfReply address reply = orFail (receiptOf (.table entries))) ∨
    (∃ response answer, reply = .ok response ∧ response.isError = false ∧
      response.json = .ok answer ∧ (∀ entries, answer ≠ .table entries) ∧
      receiptOfReply address reply = .error (.fault (.noOperation answer.kind "get"))) ∨
    ((∀ response answer, reply = .ok response → response.isError = false →
      response.json ≠ .ok answer) ∧
      ∃ reason, receiptOfReply address reply = .ok ⟨false, .ofRaw reason, .null⟩) := by
  cases reply with
  | error failure =>
      obtain ⟨kind, message, rfl, husable⟩ := hreply failure rfl
      refine Or.inr (Or.inr ⟨nofun, message, ?_⟩)
      simp [receiptOfReply, checkedAnswerOf, answerOf, husable, bind, Except.bind, pure,
        Except.pure]
  | ok response =>
      cases hstatus : response.isError with
      | true =>
          refine Or.inr (Or.inr ⟨?_, response.errorText address, ?_⟩)
          · rintro other answer ⟨⟩ hother
            cases hstatus.symm.trans hother
          · simp [receiptOfReply, checkedAnswerOf, hstatus, bind, Except.bind, pure, Except.pure]
      | false =>
          have hchecked : checkedAnswerOf address (.ok response) =
              .ok (response.json.mapError .ofString) := by
            simp [checkedAnswerOf, hstatus, answerOf]
          cases hjson : response.json with
          | error reason =>
              refine Or.inr (Or.inr ⟨?_, reason, ?_⟩)
              · rintro other answer ⟨⟩ - hother
                cases hjson.symm.trans hother
              · rw [receiptOfReply, hchecked, hjson]
                rfl
          | ok answer =>
              have hanswer : receiptOfReply address (.ok response) = orFail (receiptOf answer) := by
                rw [receiptOfReply, hchecked, hjson]
                rfl
              by_cases htable : ∃ entries, answer = .table entries
              · obtain ⟨entries, rfl⟩ := htable
                exact Or.inl ⟨response, entries, rfl, hstatus, hjson, hanswer⟩
              · have hnot : ∀ entries, answer ≠ .table entries := by simpa using htable
                refine Or.inr (Or.inl ⟨response, answer, rfl, hstatus, hjson, hnot, ?_⟩)
                rw [hanswer, receiptOf_of_not_table hnot]
                rfl

theorem receiptOfReply_eq_error_iff {address : String} (hreply : Answers reply) :
    receiptOfReply address reply = .error failure ↔
      ∃ response answer, reply = .ok response ∧ response.isError = false ∧
        response.json = .ok answer ∧ (∀ entries, answer ≠ .table entries) ∧
        failure = .fault (.noOperation answer.kind "get") := by
  obtain ⟨response, entries, rfl, hstatus, hjson, hreceipt⟩ |
    ⟨response, answer, rfl, hstatus, hjson, htable, hreceipt⟩ | ⟨hnone, reason, hreceipt⟩ :=
    receiptOfReply_cases address hreply
  · obtain ⟨receipt, hok, -⟩ := exists_receiptOf_table entries
    rw [hreceipt, hok]
    refine ⟨nofun, ?_⟩
    rintro ⟨other, answer, ⟨⟩, -, hother, htable, -⟩
    cases hjson.symm.trans hother
    exact absurd rfl (htable entries)
  · rw [hreceipt]
    constructor
    · rintro ⟨⟩
      exact ⟨response, answer, rfl, hstatus, hjson, htable, rfl⟩
    · rintro ⟨other, otherAnswer, ⟨⟩, -, hother, -, rfl⟩
      cases hjson.symm.trans hother
      rfl
  · rw [hreceipt]
    refine ⟨nofun, ?_⟩
    rintro ⟨response, answer, hresponse, hstatus, hjson, -⟩
    exact absurd hjson (hnone response answer hresponse hstatus)

theorem accepted_iff_of_receiptOfReply {address : String} {receipt : Receipt}
    (hreply : Answers reply) (h : receiptOfReply address reply = .ok receipt) :
    receipt.accepted = true ↔ Accepts reply := by
  obtain ⟨response, entries, rfl, hstatus, hjson, hreceipt⟩ |
    ⟨response, answer, rfl, hstatus, hjson, htable, hreceipt⟩ | ⟨hnone, reason, hreceipt⟩ :=
    receiptOfReply_cases address hreply
  · obtain ⟨other, hok, haccepted⟩ := exists_receiptOf_table entries
    rw [hreceipt, hok] at h
    cases h
    rw [haccepted]
    constructor
    · intro hone
      exact ⟨response, entries, rfl, hstatus, hjson, hone⟩
    · rintro ⟨other, others, ⟨⟩, -, hother, hone⟩
      cases hjson.symm.trans hother
      exact hone
  · cases hreceipt.symm.trans h
  · cases hreceipt.symm.trans h
    refine ⟨nofun, ?_⟩
    rintro ⟨response, entries, hresponse, hstatus, hjson, -⟩
    exact absurd hjson (hnone response _ hresponse hstatus)

end Answer

section Submit

theorem submit_of_unknown (hunknown : Network.find? (.int s.chain) = none) :
    submit explorer reply s = { result := orFail (unknownChain s.chain) } := by
  simp [submit, hunknown]

theorem submit_of_keyless (hknown : Network.find? (.int s.chain) ≠ none)
    (hkey : explorer.key = none) : submit explorer reply s = { result := .ok keyless } := by
  simp [submit, hknown, hkey]

theorem submit_of_prepares (h : explorer.Prepares s key) :
    submit explorer reply s =
      match formOf s key with
      | .error failure => { result := .error failure }
      | .ok form =>
          { result := receiptOfReply explorer.address reply
            call := some ⟨.post, explorer.address, [("chainid", .int s.chain)], some form⟩ } := by
  cases hform : formOf s key <;> simp [submit, h.known, h.keyed, hform]

theorem Prepares.print?_ne_none (h : explorer.Prepares s key) :
    Numeral.print? s.chain ≠ none := by
  obtain ⟨network, hnetwork⟩ := Option.ne_none_iff_exists'.mp h.known
  exact Network.print?_of_find? hnetwork

theorem unknownChain_eq_error_iff {chain : Int} :
    orFail (unknownChain chain) = .error failure ↔
      Numeral.print? chain = none ∧ failure = .fault .numeralTooLong := by
  rw [orFail_eq_error_iff]
  constructor
  · rintro ⟨fault, hfault, rfl⟩
    rcases bind_eq_error_iff.mp hfault with hfault | ⟨text, -, hfault⟩
    · obtain ⟨hlong, rfl⟩ := Value.printInt_eq_error_iff.mp hfault
      exact ⟨hlong, rfl⟩
    · cases hfault
  · rintro ⟨hlong, rfl⟩
    exact ⟨_, bind_eq_error_iff.mpr (Or.inl (Value.printInt_eq_error_iff.mpr ⟨hlong, rfl⟩)), rfl⟩

/-- A submission that is prepared stops at its form or at the reply. -/
theorem raises_iff_of_prepares (habi : Encoding.AllTables s.abi) (hreply : Answers reply)
    (h : explorer.Prepares s key) :
    Raises explorer reply s failure ↔
      formOf s key = .error failure ∨
        (∃ form, formOf s key = .ok form) ∧
          receiptOfReply explorer.address reply = .error failure := by
  have hform {failure : Failure} : formOf s key = .error failure ↔ _ :=
    formOf_eq_error_iff habi h.print?_ne_none
  constructor
  · intro hraises
    cases hraises with
    | chain hunknown => exact absurd hunknown h.known
    | runs hother hlong => exact Or.inl (hform.mpr (Or.inl ⟨hlong, rfl⟩))
    | arguments hother hruns hstop => exact Or.inl (hform.mpr (Or.inr ⟨hruns, hstop⟩))
    | answer hother hruns hstop hresponse hstatus hjson htable =>
        refine Or.inr ⟨?_, (receiptOfReply_eq_error_iff hreply).mpr
          ⟨_, _, hresponse, hstatus, hjson, htable, rfl⟩⟩
        cases hok : formOf s key with
        | ok form => exact ⟨form, rfl⟩
        | error failure =>
            rcases hform.mp hok with ⟨hlong, -⟩ | ⟨-, hargs⟩
            · exact absurd hlong hruns
            · exact absurd hargs (hstop failure)
  · rintro (hfailure | ⟨⟨form, hok⟩, hreceipt⟩)
    · rcases hform.mp hfailure with ⟨hlong, rfl⟩ | ⟨hruns, hstop⟩
      · exact .runs h hlong
      · exact .arguments h hruns hstop
    · obtain ⟨response, answer, hresponse, hstatus, hjson, htable, rfl⟩ :=
        (receiptOfReply_eq_error_iff hreply).mp hreceipt
      have hnot (failure : Failure) : formOf s key ≠ .error failure := by simp [hok]
      have hruns : Numeral.print? s.runs ≠ none := fun hlong =>
        hnot _ (hform.mpr (Or.inl ⟨hlong, rfl⟩))
      exact .answer h hruns (fun failure hstop => hnot failure (hform.mpr (Or.inr ⟨hruns, hstop⟩)))
        hresponse hstatus hjson htable

theorem submit_eq_error_iff (habi : Encoding.AllTables s.abi) (hreply : Answers reply) :
    (submit explorer reply s).result = .error failure ↔ Raises explorer reply s failure := by
  by_cases hknown : Network.find? (.int s.chain) = none
  · rw [submit_of_unknown hknown, unknownChain_eq_error_iff]
    constructor
    · rintro ⟨hlong, rfl⟩
      exact .chain hknown hlong
    · intro h
      cases h with
      | chain _ hlong => exact ⟨hlong, rfl⟩
      | runs h => exact absurd hknown h.known
      | arguments h => exact absurd hknown h.known
      | answer h => exact absurd hknown h.known
  cases hkey : explorer.key with
  | none =>
      rw [submit_of_keyless hknown hkey]
      refine ⟨nofun, fun h => ?_⟩
      cases h with
      | chain hunknown => exact absurd hunknown hknown
      | runs h => cases hkey.symm.trans h.keyed
      | arguments h => cases hkey.symm.trans h.keyed
      | answer h => cases hkey.symm.trans h.keyed
  | some key =>
      have h : explorer.Prepares s key := ⟨hknown, hkey⟩
      rw [raises_iff_of_prepares habi hreply h, submit_of_prepares h]
      cases formOf s key <;> simp

/-- A receipt says that a submission is accepted if it was sent, and the explorer says so. -/
theorem accepted_iff_of_submit {receipt : Receipt} (hreply : Answers reply)
    (h : (submit explorer reply s).result = .ok receipt) :
    receipt.accepted = true ↔
      (submit explorer reply s).call.isSome = true ∧ Accepts reply := by
  by_cases hknown : Network.find? (.int s.chain) = none
  · rw [submit_of_unknown hknown] at h ⊢
    obtain ⟨text, -, hreceipt⟩ := bind_eq_ok_iff.mp (orFail_eq_ok.mp h)
    cases hreceipt
    simp
  cases hkey : explorer.key with
  | none =>
      rw [submit_of_keyless hknown hkey] at h ⊢
      cases h
      simp [keyless]
  | some key =>
      rw [submit_of_prepares ⟨hknown, hkey⟩] at h ⊢
      cases hform : formOf s key with
      | error failure => simp [hform] at h
      | ok form =>
          rw [hform] at h
          simpa using accepted_iff_of_receiptOfReply hreply h

/-- A submission is answered with a receipt unless something raises. Arguments that cannot be
encoded do not: they are left out of the form that is sent. Nothing but a table with the status of a
success is taken for one. -/
theorem submit_contained {v : Value} (hread : Submission.read v = .ok s) (hreply : Answers reply) :
    (∀ failure, (submit explorer reply s).result = .error failure ↔
      Raises explorer reply s failure) ∧
    (∀ failure, (∀ message, failure ≠ .verification message) →
      (Encoding.constructorArguments (.list s.abi) (.list s.arguments) = .error failure ↔
        ArgumentsStop s failure)) ∧
    (∀ key chain runs message, explorer.Prepares s key → Numeral.print? s.chain = some chain →
      Numeral.print? s.runs = some runs →
      Encoding.constructorArguments (.list s.abi) (.list s.arguments) =
        .error (.verification message) →
      (submit explorer reply s).call = some ⟨.post, explorer.address, [("chainid", .int s.chain)],
        some (baseForm s key chain runs)⟩) ∧
    (∀ receipt, (submit explorer reply s).result = .ok receipt →
      (receipt.accepted = true ↔
        (submit explorer reply s).call.isSome = true ∧ Accepts reply)) := by
  have habi := Submission.allTables_abi hread
  refine ⟨fun failure => submit_eq_error_iff habi hreply,
    fun failure => Encoding.constructorArguments_eq_error_iff habi,
    fun key chain runs message hprepares hchain hruns harguments => ?_,
    fun receipt => accepted_iff_of_submit hreply⟩
  rw [submit_of_prepares hprepares, formOf_of_verification hchain hruns harguments]

/-- A contract with two arguments for a constructor of one. -/
def surplus : Submission where
  address := "0x5aAeb6053F3E94C9b9A09f33669435E7Ef1BeAed"
  chain := 1
  source := "contract A \x7b\x7d"
  contractName := "A"
  compilerVersion := "0.8.20"
  abi := [Value.ofFields [("type", .text "constructor"),
    ("inputs", .list [Value.ofFields [("type", .text "uint256")]])]]
  arguments := [.int 1, .int 2]
  optimised := true
  runs := 200
  evm := "paris"

theorem read_surplus : Submission.read (Value.ofFields surplus.toFields) = .ok surplus := by
  have haddress : Request.sized addressLength (some addressLength) Request.soundText
      (.text surplus.address) = .ok surplus.address := by
    simp only [Request.sized, Request.soundText_text]
    rfl
  have habi : Request.listOf Request.fields (.list surplus.abi) = .ok surplus.abi := by
    simp [Request.listOf, Request.itemsFrom, Request.fields, Request.tableOf, Request.entriesOf,
      Request.entry, Request.textValue, Request.anything, Request.Checked.map,
      Request.Checked.take, Request.Checked.within, Ordered.ofEntries, Ordered.put, surplus,
      Value.ofFields]
  simp only [Submission.read, Request.required, Request.withDefault, Value.field?_ofFields,
    Submission.toFields, Ordered.get?, List.find?]
  simp only [String.reduceBEq, Option.map_some, haddress, habi, Request.text_ofRaw]
  rfl

theorem arguments_surplus :
    Encoding.constructorArguments (.list surplus.abi) (.list surplus.arguments) =
      .error (Encoding.wrongArity 1 2) := by
  have hconstructor : Encoding.constructorOf surplus.abi = .ok (some (Value.ofFields
      [("type", .text "constructor"),
        ("inputs", .list [Value.ofFields [("type", .text "uint256")]])])) := by
    simp [Encoding.constructorOf, surplus, Value.get, Value.ofFields, Ordered.get?, bind,
      Except.bind, pure, Except.pure]
  have hdeclares : Encoding.Declares surplus.abi
      (.list [Value.ofFields [("type", .text "uint256")]]) :=
    ⟨_, hconstructor, Value.getD_ofFields _ _ _⟩
  rw [Encoding.constructorArguments_of_declares hdeclares]
  rfl

theorem prepares_surplus : Prepares ⟨defaultService, some "k"⟩ surplus "k" where
  known := Network.find?_ne_none (List.mem_cons_self)
  keyed := rfl

/-- Surplus arguments are left out of the form, and the submission is sent. -/
theorem submit_contained_of_surplus :
    let explorer : Explorer := ⟨defaultService, some "k"⟩
    let reply : Reply := .error (.outage .timeout "timed out")
    Answers reply ∧ (submit explorer reply surplus).call = some ⟨.post, defaultService,
      [("chainid", .int 1)], some (baseForm surplus "k" "1" "200")⟩ := by
  have hreply : Answers (.error (.outage .timeout "timed out")) := by
    rintro failure ⟨⟩
    exact ⟨_, _, rfl, rfl⟩
  exact ⟨hreply, (submit_contained read_surplus hreply).2.2.1 "k" "1" "200" _
    prepares_surplus (by decide) (by decide) arguments_surplus⟩

/-- Not every submission is answered with a receipt: none is where the explorer answers with a list.
-/
theorem not_forall_receipt :
    ¬∀ (explorer : Explorer) (reply : Reply) (v : Value) (s : Submission),
      Submission.read v = .ok s → Answers reply →
        ∃ receipt, (submit explorer reply s).result = .ok receipt := by
  intro h
  have hreply : Answers (.ok ⟨200, "OK", "[1]"⟩) := nofun
  obtain ⟨receipt, hreceipt⟩ := h ⟨defaultService, some "k"⟩ _ _ surplus read_surplus hreply
  have hjson : (⟨200, "OK", "[1]"⟩ : Response).json = .ok (.list [.int 1]) := by rfl
  have hform : formOf surplus "k" = .ok (baseForm surplus "k" "1" "200") :=
    formOf_of_verification (by decide) (by decide) arguments_surplus
  rw [submit_of_prepares prepares_surplus, hform] at hreceipt
  have hraised : receiptOfReply defaultService (.ok ⟨200, "OK", "[1]"⟩) = .error _ :=
    (receiptOfReply_eq_error_iff hreply).mpr ⟨_, _, rfl, rfl, hjson, nofun, rfl⟩
  cases hraised.symm.trans hreceipt

end Submit

end Explorer

end Verification

end ContractBench
