import ContractBench.Proofs.Abi.Overloads
import ContractBench.Proofs.Ordered
import ContractBench.Proofs.Service.Sending

/-! # Answers to requests for categories

A request gets the categories of its interface with a table of signatures. The table keeps the
signatures of all functions exactly where functions of one name have the same one.
-/

namespace ContractBench

open Value (IsData IsWhole Throughout)

namespace Request

variable {key v w : Value} {xs ys : List Value} {entries : List (Value × Value)}

theorem entry_anything (h : key.kind = .text) (v : Value) :
    entry anything key v = .ok (key, v) := by
  have htext : textValue key = .ok key := by
    cases key with
    | text s => rfl
    | brokenText ps => rfl
    | _ => cases h
  rw [entry, htext]
  rfl

theorem entriesOf_anything (h : ∀ entry ∈ entries, entry.1.kind = .text) :
    entriesOf anything entries = .ok entries := by
  induction entries with
  | nil => rfl
  | cons first rest ih =>
      obtain ⟨hfirst, hrest⟩ := List.forall_mem_cons.mp h
      rw [entriesOf, entry_anything hfirst, ih hrest]
      rfl

/-- Data is read as fields if it is a table, and then as it is. -/
theorem fields_eq_ok_iff (h : IsData v) : fields v = .ok w ↔ v.kind = .table ∧ w = v := by
  cases v with
  | table entries =>
      have hkeyed : Ordered.TextKeyed entries := h.holds
      rw [fields, tableOf, entriesOf_anything fun _ => hkeyed.kind_eq]
      simp [Checked.map, hkeyed.ofEntries_eq, Value.kind, eq_comm]
  | _ => simp [fields, tableOf, Checked.broken, Checked.map, Value.kind]

/-- A list of data is read as a list of fields if its items are, and then as it is. -/
theorem listOf_fields_eq_ok_iff (h : ∀ x ∈ xs, IsData x) :
    listOf fields (.list xs) = .ok ys ↔ (∀ x ∈ xs, x.kind = .table) ∧ ys = xs := by
  rw [listOf]
  generalize 0 = position
  induction xs generalizing ys position with
  | nil => simp [itemsFrom, eq_comm]
  | cons x xs ih =>
      obtain ⟨hx, hxs⟩ := List.forall_mem_cons.mp h
      simp only [itemsFrom, Checked.take_eq_ok_iff, Checked.map_eq_ok_iff, Checked.within_eq_ok_iff,
        fields_eq_ok_iff hx, ih hxs, List.forall_mem_cons]
      constructor
      · rintro ⟨_, _, ⟨_, ⟨hfirst, rfl⟩, rfl⟩, ⟨hrest, rfl⟩, rfl⟩
        exact ⟨⟨hfirst, hrest⟩, rfl⟩
      · rintro ⟨⟨hfirst, hrest⟩, rfl⟩
        exact ⟨_, _, ⟨_, ⟨hfirst, rfl⟩, rfl⟩, ⟨hrest, rfl⟩, rfl⟩

end Request

namespace Abi

variable {abi : List Value} {table : List (Value × Value)} {c : Categorised} {p : Value → Prop}

theorem HoldsTexts.throughout (h : HoldsTexts table) (htable : p (.table table))
    (htext : ∀ text, p (.text text)) : Throughout p (.table table) := by
  refine ⟨htable, List.forall_mem_map.mpr fun entry hentry => ?_⟩
  obtain ⟨name, text, rfl⟩ := h.texts entry hentry
  exact ⟨htext text, List.forall_mem_nil _⟩

theorem HoldsTexts.isData (h : HoldsTexts table) : IsData (.table table) :=
  h.throughout h.keyed fun _ => trivial

theorem HoldsTexts.isWhole (h : HoldsTexts table) : IsWhole (.table table) := by
  refine h.throughout (fun entry hentry => ?_) fun _ => trivial
  obtain ⟨name, text, rfl⟩ := h.texts entry hentry
  exact nofun

/-- What holds throughout the entries of an interface holds throughout its categories. -/
theorem Categorised.Separates.throughout (h : c.Separates abi) (hlist : ∀ xs, p (.list xs))
    (hnull : p .null) (hall : ∀ entry ∈ abi, Throughout p entry) :
    ∀ field ∈ c.toFields, Throughout p field.2 := by
  have hentry : ∀ entry ∈ c.entries, Throughout p entry :=
    fun entry hentry => hall entry (h.exists_of_mem hentry).1
  have hone {one : Option Value} (hone : ∀ entry ∈ one, entry ∈ c.entries) :
      Throughout p (one.getD .null) := by
    cases one with
    | none => exact ⟨hnull, List.forall_mem_nil _⟩
    | some entry => exact hentry entry (hone entry rfl)
  have hmany {many : List Value} (hmany : ∀ entry ∈ many, entry ∈ c.entries) :
      Throughout p (.list many) :=
    ⟨hlist many, fun entry hmem => hentry entry (hmany entry hmem)⟩
  simp only [toFields, List.forall_mem_cons]
  refine ⟨hmany ?_, hmany ?_, hmany ?_, hmany ?_, hone ?_, hone ?_, hone ?_, List.forall_mem_nil _⟩
  all_goals
    intro entry hmem
    simp only [entries, List.mem_append, Option.mem_toList]
    tauto

end Abi

namespace Service

open Abi

theorem Page.status_ofIssues (issues : List Request.Issue) :
    (Page.ofIssues issues).status ≠ 200 := by
  rw [ofIssues]
  split
  next =>
    rw [ofDetail]
    cases hpage : ofFields 422 [("detail", .list (issues.map issueValue))] with
    | ok page =>
        rw [Except.toOption, Option.getD_some, status_of_ofFields hpage]
        decide
    | error fault => exact (by decide : stopped.status ≠ 200)
  next => decide

section Answers

variable {setting : Setting} {server : Server} {visit : Visit} {entries : List (Value × Value)}
  {abi : List Value}

/-- The data of an answer: the categories of an interface and the signatures. -/
def interfaceFields (c : Categorised) (table : List (Value × Value)) : List (String × Value) :=
  c.toFields ++ [("signatures", .table table)]

/-- The page for an interface. -/
def interfacePage (c : Categorised) (table : List (Value × Value)) : Page :=
  (Answer.envelope (.done "ABI categorizada" (Value.ofFields (interfaceFields c table)))).page

/-- The reader of the interface in a request. -/
def readInterface : Request.Reader (List Value) := fun v =>
  Request.required v "abi" (Request.listOf Request.fields)

theorem page_of_categories (h : Brings visit .categories (.data (.table entries))) :
    (server.answer setting visit).page =
      (Answer.ofFields (.data (.table entries)) readInterface fun abi =>
        .ofData "ABI categorizada" (Server.interfaceData abi)).page := by
  rw [answer_of_brings h]
  rfl

theorem readInterface_eq_ok_iff {read : List Value} (hdata : IsData (.table entries))
    (habi : (Value.table entries).field? "abi" = some (.list abi)) :
    (Payload.data (.table entries)).fields readInterface = .ok read ↔
      (∀ entry ∈ abi, entry.kind = .table) ∧ read = abi := by
  have hentries : ∀ entry ∈ abi, IsData entry :=
    fun entry hentry => (hdata.of_field? habi).of_mem hentry
  rw [← Request.listOf_fields_eq_ok_iff hentries]
  simp only [Payload.fields, readInterface, Request.Checked.within_eq_ok_iff,
    Request.required_eq_ok_iff, habi, Option.some.injEq, exists_eq_left']

theorem interfaceData_eq_ok_iff {data : Value} : Server.interfaceData abi = .ok data ↔
    ∃ c table, categorise (.list abi) = .ok c ∧ signatures c = .ok table ∧
      Value.ofFields (interfaceFields c table) = data := by
  rw [Server.interfaceData, orFail_eq_ok]
  constructor
  · intro h
    obtain ⟨c, hc, h⟩ := bind_eq_ok_iff.mp h
    obtain ⟨table, htable, h⟩ := bind_eq_ok_iff.mp h
    exact ⟨c, table, hc, htable, Except.ok.inj h⟩
  · rintro ⟨c, table, hc, htable, rfl⟩
    exact bind_eq_ok_iff.mpr ⟨c, hc, bind_eq_ok_iff.mpr ⟨table, htable, rfl⟩⟩

/-- An answer that is a success holds the categories and the signatures. -/
theorem exists_of_accepted (h : Brings visit .categories (.data (.table entries)))
    (habi : (Value.table entries).field? "abi" = some (.list abi))
    (haccepted : (server.answer setting visit).page.status = 200) :
    ∃ c table, categorise (.list abi) = .ok c ∧ signatures c = .ok table ∧
      (server.answer setting visit).page = interfacePage c table := by
  have hdata : IsData (.table entries) := Payload.isData_of_read h.read
  rw [page_of_categories h, Answer.ofFields] at haccepted ⊢
  split at haccepted
  next read hread =>
    obtain ⟨-, rfl⟩ := (readInterface_eq_ok_iff hdata habi).mp hread
    cases hanswer : Server.interfaceData read with
    | ok data =>
        obtain ⟨c, table, hc, htable, rfl⟩ := interfaceData_eq_ok_iff.mp hanswer
        exact ⟨c, table, hc, htable, rfl⟩
    | error failure =>
        obtain ⟨fault, -, rfl⟩ := orFail_eq_error_iff.mp hanswer
        rw [hanswer, Answer.ofData, Answer.page_ofFault] at haccepted
        cases haccepted
  next issues _ => exact absurd haccepted (Page.status_ofIssues issues)

/-- An interface in which names are texts, functions are well-formed and no text is broken gets its
categories. -/
theorem status_of_named (h : Brings visit .categories (.data (.table entries)))
    (habi : (Value.table entries).field? "abi" = some (.list abi))
    (hsigned : AreSigned abi)
    (hnamed : ∀ entry ∈ abi, IsNamed entry) (hwhole : ∀ entry ∈ abi, IsWhole entry) :
    (server.answer setting visit).page.status = 200 := by
  have hdata : IsData (.table entries) := Payload.isData_of_read h.read
  have hentries : ∀ entry ∈ abi, IsData entry :=
    fun entry hentry => (hdata.of_field? habi).of_mem hentry
  obtain ⟨c, hc, hseparates⟩ := exists_separates hnamed
  obtain ⟨table, htable, htexts, -⟩ :=
    hsigned.exists_signatures (perm_functions hseparates.read.perm hseparates.write.perm)
  have hread : (Payload.data (.table entries)).fields readInterface = .ok abi :=
    (readInterface_eq_ok_iff hdata habi).mpr ⟨fun entry hentry => (hnamed entry hentry).1, rfl⟩
  have hanswer : Server.interfaceData abi = .ok (Value.ofFields (interfaceFields c table)) :=
    interfaceData_eq_ok_iff.mpr ⟨c, table, hc, htable, rfl⟩
  have hfields {p : Value → Prop} (hlist : ∀ xs, p (.list xs)) (hnull : p .null)
      (hall : ∀ entry ∈ abi, Throughout p entry) (htable : Throughout p (.table table)) :
      ∀ field ∈ interfaceFields c table, Throughout p field.2 :=
    List.forall_mem_append.mpr ⟨hseparates.throughout hlist hnull hall,
      List.forall_mem_singleton.mpr htable⟩
  have hnames : ((interfaceFields c table).map Prod.fst).Nodup :=
    (by decide : ["read_functions", "write_functions", "events", "errors", "constructor",
      "fallback", "receive", "signatures"].Nodup)
  have hsent : IsData (Value.ofFields (interfaceFields c table)) :=
    Json.isData_ofFields hnames (hfields (fun _ => trivial) trivial hentries htexts.isData)
  have hunbroken : IsWhole (Value.ofFields (interfaceFields c table)) :=
    Page.isWhole_ofFields.mpr (hfields (fun _ => trivial) trivial hwhole htexts.isWhole)
  rw [page_of_categories h, Answer.ofFields, hread]
  dsimp only
  rw [hanswer]
  exact (Answer.status_done hsent).1 hunbroken

/-- A request with well-formed functions is a success if no other name is without order and no text
is broken. The answer then has the signature of the last function of each name under this name. So
every function finds its own there exactly where functions of one name have the same one. -/
theorem signatures_kept_iff (h : Brings visit .categories (.data (.table entries)))
    (habi : (Value.table entries).field? "abi" = some (.list abi))
    (hsigned : AreSigned abi) :
    ((∀ entry ∈ abi, IsNamed entry ∧ IsWhole entry) →
      (server.answer setting visit).page.status = 200) ∧
    ((server.answer setting visit).page.status = 200 →
      ∃ c table, categorise (.list abi) = .ok c ∧ signatures c = .ok table ∧
        (server.answer setting visit).page = interfacePage c table ∧
        (c.readFunctions ++ c.writeFunctions).Perm (abi.filter (hasType "function")) ∧
        KeepsLast table (c.readFunctions ++ c.writeFunctions) ∧
        ((∀ f ∈ c.readFunctions ++ c.writeFunctions, Keeps table f) ↔
          AreSingle (abi.filter (hasType "function")))) := by
  refine ⟨fun hall => status_of_named h habi hsigned (fun entry hentry => (hall entry hentry).1)
    fun entry hentry => (hall entry hentry).2, fun haccepted => ?_⟩
  obtain ⟨c, table, hc, htable, hpage⟩ := exists_of_accepted h habi haccepted
  have hperm := hsigned.perm_functions hc
  obtain ⟨found, hfound, -, hlast⟩ := hsigned.exists_signatures hperm
  cases htable.symm.trans hfound
  exact ⟨c, table, hc, htable, hpage, hperm, hlast,
    (forall_keeps_iff hlast).trans (AreSingle.congr hperm)⟩

end Answers

section Samples

def parameterOf (type : String) : Value := .ofFields [("type", .text type)]

def mintOf (parameters : List Value) : Value :=
  .ofFields [("name", .text "mint"), ("inputs", .list parameters)]

/-- An interface with two functions of one name. -/
def overloads : List Value := [mintOf [], mintOf [parameterOf "address"]]

def overloadsVisit : Visit where
  method := "POST"
  address := ⟨Route.categories.path, []⟩
  body := "\x7b\"abi\": [\x7b\"name\": \"mint\", \"inputs\": []\x7d, " ++
    "\x7b\"name\": \"mint\", \"inputs\": [\x7b\"type\": \"address\"\x7d]\x7d]\x7d"
  client := "10.0.0.1"

theorem isParameter_parameterOf (type : String) : IsParameter (parameterOf type) where
  table := rfl
  type := by simp [parameterOf, Value.field?_ofFields, Ordered.get?]
  name := by simp [parameterOf, Value.field?_ofFields, Ordered.get?]

theorem isSigned_mintOf {parameters : List Value}
    (h : ∀ parameter ∈ parameters, IsParameter parameter) : IsSigned (mintOf parameters) where
  table := rfl
  name := by simp [mintOf, Value.field?_ofFields, Ordered.get?]
  inputs := by
    intro v hv
    simp [mintOf, Value.field?_ofFields, Ordered.get?] at hv
    exact ⟨parameters, hv.symm, h⟩
  outputs := by simp [mintOf, Value.field?_ofFields, Ordered.get?]

theorem isSigned_overloads : ∀ entry ∈ overloads, IsSigned entry := by
  simp only [overloads, List.forall_mem_cons]
  exact ⟨isSigned_mintOf (List.forall_mem_nil _),
    isSigned_mintOf (List.forall_mem_singleton.mpr (isParameter_parameterOf _)),
    List.forall_mem_nil _⟩

theorem nameOf_mintOf (parameters : List Value) : nameOf (mintOf parameters) = .text "mint" := by
  simp [nameOf, mintOf, Value.field?_ofFields, Ordered.get?]

theorem isWhole_overloads : ∀ entry ∈ overloads, IsWhole entry := by
  have htext (text : String) : IsWhole (.text text) := .leaf trivial rfl
  have hparameter (type : String) : IsWhole (parameterOf type) :=
    Page.isWhole_ofFields.mpr (List.forall_mem_singleton.mpr (htext type))
  have hmint {parameters : List Value} (h : ∀ parameter ∈ parameters, IsWhole parameter) :
      IsWhole (mintOf parameters) :=
    Page.isWhole_ofFields.mpr (by simpa [htext] using ⟨trivial, h⟩)
  simp only [overloads, List.forall_mem_cons]
  exact ⟨hmint (List.forall_mem_nil _), hmint (List.forall_mem_singleton.mpr (hparameter _)),
    List.forall_mem_nil _⟩

theorem not_areSingle_overloads : ¬AreSingle (overloads.filter (hasType "function")) := by
  intro h
  have hfunctions : overloads.filter (hasType "function") = overloads := by
    refine List.filter_eq_self.mpr ?_
    decide +kernel
  rw [hfunctions] at h
  have hsame := h _ List.mem_cons_self _ (List.mem_cons_of_mem _ List.mem_cons_self)
    ((nameOf_mintOf _).trans (nameOf_mintOf _).symm)
  have hdiffer : (signature overloads[0]).toOption ≠ (signature overloads[1]).toOption := by
    decide +kernel
  exact hdiffer (congrArg Except.toOption hsame)

theorem brings_overloads :
    Brings overloadsVisit .categories (.data (.ofFields [("abi", .list overloads)])) where
  posted := rfl
  route := by decide
  method := rfl
  read := by
    have hparameter (type : String) : Json.Kept (parameterOf type) :=
      Json.kept_ofFields (List.nodup_singleton _)
        (List.forall_mem_singleton.mpr (.text (Json.keptText _)))
    have hmint {parameters : List Value} (h : ∀ parameter ∈ parameters, Json.Kept parameter) :
        Json.Kept (mintOf parameters) := by
      refine Json.kept_ofFields (by decide : ["name", "inputs"].Nodup) ?_
      simp only [List.forall_mem_cons]
      exact ⟨.text (Json.keptText _), .list h, List.forall_mem_nil _⟩
    have hoverloads : Json.Kept (.list overloads) := by
      refine .list ?_
      simp only [overloads, List.forall_mem_cons]
      exact ⟨hmint (List.forall_mem_nil _), hmint (List.forall_mem_singleton.mpr (hparameter _)),
        List.forall_mem_nil _⟩
    have hkept : Json.Kept (.ofFields [("abi", .list overloads)]) :=
      Json.kept_ofFields (List.nodup_singleton _) (List.forall_mem_singleton.mpr hoverloads)
    have hwrite : Json.write (.ofFields [("abi", .list overloads)]) = .ok overloadsVisit.body := by
      decide +kernel
    have hpoints : Json.pointsOf? overloadsVisit.body.toUTF8.toList =
        some (Text.points overloadsVisit.body) := by decide +kernel
    exact Payload.read_of_write hkept hwrite hpoints

theorem abi_overloads :
    (Value.ofFields [("abi", .list overloads)]).field? "abi" = some (.list overloads) := by
  simp [Value.field?_ofFields, Ordered.get?]

theorem signatures_kept_iff_of_overloads :
    (Brings overloadsVisit .categories (.data (.ofFields [("abi", .list overloads)])) ∧
      (Value.ofFields [("abi", .list overloads)]).field? "abi" = some (.list overloads) ∧
      ∀ entry ∈ overloads, IsSigned entry ∧ IsNamed entry ∧ IsWhole entry) ∧
    (({} : Server).answer .idle overloadsVisit).page.status = 200 ∧
    ∃ c table, (({} : Server).answer .idle overloadsVisit).page = interfacePage c table ∧
      (c.readFunctions ++ c.writeFunctions).Perm (overloads.filter (hasType "function")) ∧
      ¬∀ f ∈ c.readFunctions ++ c.writeFunctions, Keeps table f := by
  have hall : ∀ entry ∈ overloads, IsNamed entry ∧ IsWhole entry := fun entry hentry =>
    ⟨(isSigned_overloads entry hentry).isNamed, isWhole_overloads entry hentry⟩
  obtain ⟨hanswer, hkept⟩ := @signatures_kept_iff .idle {} overloadsVisit _ overloads
    brings_overloads abi_overloads fun entry hentry _ => isSigned_overloads entry hentry
  obtain ⟨c, table, -, -, hpage, hperm, -, hiff⟩ := hkept (hanswer hall)
  exact ⟨⟨brings_overloads, abi_overloads, fun entry hentry =>
    ⟨isSigned_overloads entry hentry, hall entry hentry⟩⟩, hanswer hall, c, table, hpage, hperm,
    mt hiff.mp not_areSingle_overloads⟩

/-- Of two functions of one name the first loses its signature. -/
theorem not_forall_keeps :
    ¬∀ (setting : Setting) (server : Server) (visit : Visit) (entries : List (Value × Value))
      (abi : List Value), Brings visit .categories (.data (.table entries)) →
      (Value.table entries).field? "abi" = some (.list abi) → AreSigned abi →
      (server.answer setting visit).page.status = 200 →
      ∀ c table, categorise (.list abi) = .ok c → signatures c = .ok table →
        ∀ f ∈ c.readFunctions ++ c.writeFunctions, Keeps table f := by
  intro h
  have hsigned : AreSigned overloads := fun entry hentry _ => isSigned_overloads entry hentry
  have haccepted := @status_of_named .idle {} overloadsVisit _ overloads brings_overloads
    abi_overloads hsigned (fun entry hentry => (isSigned_overloads entry hentry).isNamed)
    isWhole_overloads
  obtain ⟨c, table, hc, htable, -⟩ := exists_of_accepted brings_overloads abi_overloads haccepted
  have hperm := hsigned.perm_functions hc
  obtain ⟨found, hfound, -, hlast⟩ := hsigned.exists_signatures hperm
  cases htable.symm.trans hfound
  have hkeeps := h .idle {} overloadsVisit _ overloads brings_overloads abi_overloads hsigned
    haccepted c table hc htable
  exact not_areSingle_overloads ((AreSingle.congr hperm).mp ((forall_keeps_iff hlast).mp hkeeps))

end Samples

end Service

end ContractBench
