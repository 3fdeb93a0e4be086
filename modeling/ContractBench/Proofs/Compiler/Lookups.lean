import ContractBench.Compiler.Catalog
import ContractBench.Proofs.Json.Data
import ContractBench.Proofs.Ordered
import Mathlib.Data.List.DropRight
import Mathlib.Data.List.Induction

/-! # Lookups

A catalog is asked one thing after the other, and made to forget in between, while its manifest
answers now this and now that. What stands is the first manifest that could be read since the
catalog forgot last. As long as none stands every lookup asks for the manifest, and from then on
all answers come from the one that stands.
-/

namespace ContractBench.Compiler

/-- What a catalog is asked, with what the address of the manifest would answer at that time. -/
inductive Lookup where
  | find (version : RawText) (reply : Reply)
  | versions (reply : Reply)
  | forget

/-- The answer of the manifest, for a lookup that needs the releases. -/
def Lookup.reply? : Lookup → Option Reply
  | .find _ reply | .versions reply => some reply
  | .forget => none

namespace Catalog

def next (catalog : Catalog) : Lookup → Catalog
  | .find version reply => (catalog.find reply version).2
  | .versions reply => (catalog.versions reply).2
  | .forget => catalog.forget

def after (catalog : Catalog) (lookups : List Lookup) : Catalog := lookups.foldl next catalog

/-- The releases of the manifest that a lookup would get, if it can be read. -/
def readable? (address : String) (lookup : Lookup) : Option (List (RawText × Release)) :=
  lookup.reply?.bind fun reply => (releasesIn address reply).toOption

/-- The releases that stand after lookups: those of the first manifest that could be read since
the catalog forgot last. -/
def standing? (address : String) (lookups : List Lookup) : Option (List (RawText × Release)) :=
  ((lookups.rtakeWhile fun lookup => lookup.reply?.isSome).filterMap (readable? address)).head?

/-- The releases from which the lookup after others is answered: those that stand, or else those of
the manifest that is asked for. -/
def answering (address : String) (lookups : List Lookup) (reply : Reply) :
    Except Failure (List (RawText × Release)) :=
  match standing? address lookups with
  | some releases => .ok releases
  | none => releasesIn address reply

section Manifest

variable {address : String} {version : RawText} {releases : List (RawText × Release)}
  {reply : Reply}

end Manifest

section Run

variable {address : String} {lookups : List Lookup} {lookup : Lookup} {reply : Reply}

@[simp] theorem standing?_snoc_forget : standing? address (lookups ++ [.forget]) = none := by
  simp [standing?, Lookup.reply?]

/-- What answers a lookup stands from then on. -/
theorem standing?_snoc (hreply : lookup.reply? = some reply) :
    standing? address (lookups ++ [lookup]) = (answering address lookups reply).toOption := by
  have hread : readable? address lookup = (releasesIn address reply).toOption := by
    rw [readable?, hreply, Option.bind_some]
  unfold answering standing?
  rw [List.rtakeWhile_concat, if_pos (by simp [hreply]), List.filterMap_append, List.head?_append]
  split
  next releases hreleases =>
    rw [hreleases]
    rfl
  next hnone =>
    rw [hnone, Option.none_or]
    cases hfound : (releasesIn address reply).toOption <;> simp [hread, hfound]

/-- A catalog knows what stands after the lookups that were made. -/
structure Follows (address : String) (lookups : List Lookup) (catalog : Catalog) : Prop where
  address_eq : catalog.address = address
  known_eq : catalog.known = standing? address lookups

variable {catalog : Catalog}

/-- A lookup that needs the releases: what it gets, and what becomes of the catalog. -/
theorem Follows.releases (h : Follows address lookups catalog) (reply : Reply) :
    (catalog.releases reply).1 = answering address lookups reply ∧
      (catalog.releases reply).2.address = address ∧
      (catalog.releases reply).2.known = (answering address lookups reply).toOption ∧
      (catalog.releases reply).2.asked =
        catalog.asked + if standing? address lookups = none then 1 else 0 := by
  obtain ⟨rfl, hknown⟩ := h
  unfold Catalog.releases answering
  rw [← hknown]
  cases hreleases : catalog.known with
  | some releases => simp [hreleases, Except.toOption]
  | none =>
      cases hfound : releasesIn catalog.address reply with
      | ok releases => simp [Except.toOption]
      | error failure => simp [Except.toOption]

theorem versions_eq (catalog : Catalog) (reply : Reply) :
    catalog.versions reply =
      ((catalog.releases reply).1.map Ordered.keys, (catalog.releases reply).2) := rfl

theorem next_of_reply (hreply : lookup.reply? = some reply) :
    catalog.next lookup = (catalog.releases reply).2 := by
  cases lookup with
  | find version other => cases hreply; rfl
  | versions other => cases hreply; rfl
  | forget => cases hreply

/-- One lookup keeps that a catalog knows what stands. -/
theorem Follows.next (h : Follows address lookups catalog) (lookup : Lookup) :
    Follows address (lookups ++ [lookup]) (catalog.next lookup) := by
  cases hreply : lookup.reply? with
  | none =>
      cases lookup with
      | forget => exact ⟨h.address_eq, standing?_snoc_forget.symm⟩
      | _ => cases hreply
  | some reply =>
      obtain ⟨-, haddress, hknown, -⟩ := h.releases reply
      rw [next_of_reply hreply]
      exact ⟨haddress, hknown.trans (standing?_snoc hreply).symm⟩

theorem after_snoc : catalog.after (lookups ++ [lookup]) = (catalog.after lookups).next lookup :=
  List.foldl_concat ..

/-- A manifest that lists nothing stands as well, until the catalog forgets. -/
example :
    let offline : Reply := .error (.outage .connection "offline")
    let empty : Reply := .ok ⟨200, "", "\x7b\x7d"⟩
    (Catalog.after {} [.versions offline, .versions empty, .versions offline]).asked = 2 ∧
      (Catalog.after {} [.versions empty, .forget, .find "0.8.20" empty]).asked = 2 := by
  decide +kernel

end Run

end Catalog

end ContractBench.Compiler
