import ContractBench.Fault
import ContractBench.Request.Issue

/-! # Failures

Everything that can stop an operation of the workbench: failures of its own work, failures of
the world outside, and data of a wrong shape.
-/

namespace ContractBench

/-- The forms in which typed text fails to be an argument. -/
inductive ArgumentForm where
  | general
  /-- The text is not in the form that the type asks for. -/
  | format
  /-- The number of elements is not that of the type. -/
  | count
deriving DecidableEq, Repr

/-- The ways in which the world outside fails. -/
inductive Outage where
  | connection
  | timeout
  | runtime
  | system
  | badValue
deriving DecidableEq, Repr

namespace Outage

/-- Whether the failure is one of the transport, as opposed to one of the machine. -/
def isTransport : Outage → Bool
  | connection | timeout => true
  | runtime | system | badValue => false

/-- Whether a reader of remote answers takes the failure for an unusable answer. -/
def isUnusableAnswer : Outage → Bool
  | connection | timeout | badValue => true
  | runtime | system => false

end Outage

/-- Reasons for which an operation stops. -/
inductive Failure where
  /-- The workbench failed in a way that has no name of its own. -/
  | general (message : RawText)
  /-- No release of the compiler has this version; some of those that exist are named. -/
  | versionNotFound (version : RawText) (available : List RawText)
  /-- The compiler could not be had. -/
  | loading (message : RawText)
  /-- A dependency could not be had. -/
  | fetching (path : RawText) (reason : RawText)
  /-- The compiler reported errors. -/
  | compilation (diagnostics : List RawText)
  /-- The compiler's output holds no contract to use. -/
  | noContract (message : RawText)
  /-- A verification could not be prepared. -/
  | verification (message : RawText)
  /-- Typed text is no argument; the last part is the field it was typed into. -/
  | argument (form : ArgumentForm) (message : RawText) (field : Option Value)
  /-- Fields do not keep the rules of their request. -/
  | invalid (issues : List Request.Issue)
  /-- A type text that is outside the grammar of types. -/
  | unreadableType
  | outage (kind : Outage) (message : RawText)
  | fault (fault : Fault)
deriving Repr

namespace Failure

/-- At most this many versions are named as available. -/
def namedVersions : Nat := 10

/-- The failure to find a version among the existing ones, of which the first are named. -/
def unknownVersion (version : RawText) (existing : List RawText) : Failure :=
  .versionNotFound version (existing.take namedVersions)

def message : Failure → RawText
  | general message => message
  | versionNotFound version available =>
      "Versão do Solidity " ++ version ++ " não encontrada. Versões disponíveis: " ++
        .joined ", " available
  | loading message => message
  | fetching path reason => "Falha ao buscar " ++ path ++ ": " ++ reason
  | compilation diagnostics => .joined "\n" diagnostics
  | noContract message => message
  | verification message => message
  | argument _ message _ => message
  | invalid _ => ""
  | unreadableType => ""
  | outage _ message => message
  | fault reason => reason.message

/-- Whether the workbench itself reports the failure, rather than being stopped by it. -/
def isReported : Failure → Bool
  | general _ | versionNotFound .. | loading _ | fetching .. | compilation _ | noContract _
  | verification _ | argument .. => true
  | invalid _ | unreadableType | outage .. | fault _ => false

end Failure

/-- An operation in two steps succeeds if both do. -/
theorem bind_eq_ok_iff {ε α β : Type} {first : Except ε α} {next : α → Except ε β} {b : β} :
    first >>= next = .ok b ↔ ∃ a, first = .ok a ∧ next a = .ok b := by
  cases first with
  | error e => exact ⟨nofun, nofun⟩
  | ok a => simp [bind, Except.bind]

/-- An operation in two steps fails with the failure of the first step that does. -/
theorem bind_eq_error_iff {ε α β : Type} {first : Except ε α} {next : α → Except ε β} {e : ε} :
    first >>= next = .error e ↔
      first = .error e ∨ ∃ a, first = .ok a ∧ next a = .error e := by
  cases first with
  | error e => simp [bind, Except.bind]
  | ok a => simp [bind, Except.bind]

/-- An operation whose result is changed succeeds if the operation does. -/
theorem map_eq_ok_iff {ε α β : Type} {outcome : Except ε α} {f : α → β} {b : β} :
    outcome.map f = .ok b ↔ ∃ a, outcome = .ok a ∧ f a = b := by
  cases outcome <;> simp [Except.map]

/-- An operation whose failure is changed succeeds if the operation does. -/
theorem mapError_eq_ok_iff {ε δ α : Type} {outcome : Except ε α} {f : ε → δ} {a : α} :
    outcome.mapError f = .ok a ↔ outcome = .ok a := by
  cases outcome <;> constructor <;> intro h <;> cases h <;> rfl

/-- A fault that stops an operation is a failure of it. -/
def orFail {α : Type} : Except Fault α → Except Failure α
  | .ok a => .ok a
  | .error fault => .error (.fault fault)

@[simp] theorem orFail_eq_ok {α : Type} {outcome : Except Fault α} {a : α} :
    orFail outcome = .ok a ↔ outcome = .ok a := by
  cases outcome <;> simp [orFail]

end ContractBench
