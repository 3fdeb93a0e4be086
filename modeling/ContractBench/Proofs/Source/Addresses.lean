import ContractBench.Proofs.Source.Segments
import ContractBench.Source.Library
import Mathlib.Data.List.TakeWhile

/-! # Addresses

Which file an address denotes is told by its plain form, in which the segments of one and two dots
have been followed. A plain path behind the address of a place stays below that place, and is told
by the plain form of the whole.
-/

namespace ContractBench.Source

/-- Whether a code point belongs to the path of an address; a question mark and a hash end it. -/
def isPathSign (p : CodePoint) : Bool := p != '?' && p != '#'

/-- A text without signs that would end the path of an address. -/
def Bare (path : RawText) : Prop := ∀ p ∈ path.points, isPathSign p = true

instance : DecidablePred Bare := fun path =>
  decidable_of_iff (path.points.all isPathSign = true) List.all_eq_true

/-- How many segments of an address come before its path: the scheme, nothing between two slashes,
and the host. -/
def hostDepth : List (List CodePoint) → Nat
  | scheme :: [] :: _ :: _ => if scheme.getLast? = some (':' : CodePoint) then 3 else 1
  | _ => 1

/-- One step along the path of an address: two dots go up, but not above the host, and one dot
stays. -/
def followDots (depth : Nat) (kept : List (List CodePoint)) (segment : List CodePoint) :
    List (List CodePoint) :=
  if segment = up then if kept.length ≤ depth then kept else kept.dropLast
  else if segment = here then kept
  else kept ++ [segment]

/-- The segments of an address without dots. Where dots come last the address ends with a slash. -/
def withoutDots (parts : List (List CodePoint)) : List (List CodePoint) :=
  parts.foldl (followDots (hostDepth parts)) [] ++
    if parts.getLast? = some here ∨ parts.getLast? = some up then [[]] else []

/-- The plain form of an address: the segments of its path that are one or two dots are followed. -/
def plainAddress (address : RawText) : RawText :=
  ofSegments (withoutDots (segments ⟨address.points.takeWhile isPathSign⟩)) ++
    RawText.mk (address.points.dropWhile isPathSign)

section Dots

variable {front rest : List (List CodePoint)} {depth : Nat}

theorem foldl_followDots_of_undotted
    (hrest : ∀ segment ∈ rest, segment ≠ here ∧ segment ≠ up) :
    rest.foldl (followDots depth) front = front ++ rest := by
  induction rest generalizing front with
  | nil => exact (List.append_nil front).symm
  | cons segment rest ih =>
      obtain ⟨⟨hdot, hdots⟩, hrest⟩ := List.forall_mem_cons.mp hrest
      rw [List.foldl_cons, followDots, if_neg hdots, if_neg hdot, ih hrest, List.append_assoc]
      rfl

/-- Segments that are not dots are kept behind what becomes of those before them. -/
theorem withoutDots_append (hsome : rest ≠ [])
    (hrest : ∀ segment ∈ rest, segment ≠ here ∧ segment ≠ up) :
    withoutDots (front ++ rest) =
      front.foldl (followDots (hostDepth (front ++ rest))) [] ++ rest := by
  have hlast : ¬((front ++ rest).getLast? = some here ∨
      (front ++ rest).getLast? = some up) := by
    rw [List.getLast?_append_of_ne_nil _ hsome]
    rintro (hdot | hdots)
    · exact (hrest _ (List.mem_of_getLast? hdot)).1 rfl
    · exact (hrest _ (List.mem_of_getLast? hdots)).2 rfl
  rw [withoutDots, if_neg hlast, List.append_nil, List.foldl_append,
    foldl_followDots_of_undotted hrest]

/-- The host of an address that ends with a slash is not changed by what is written behind it. -/
theorem hostDepth_append (hfront : front ≠ []) (hsome : rest ≠ [])
    (hrest : ∀ segment ∈ rest, IsName segment) :
    hostDepth (front ++ rest) = hostDepth (front ++ [[]]) := by
  obtain ⟨name, names, rfl⟩ := List.exists_cons_of_ne_nil hsome
  obtain ⟨c, cs, rfl⟩ := List.exists_cons_of_ne_nil (hrest name List.mem_cons_self).1
  match front, hfront with
  | [_], _ => rfl
  | [_, []], _ => rfl
  | [_, _ :: _], _ => rfl
  | _ :: [] :: _ :: _, _ => rfl
  | _ :: (_ :: _) :: _ :: _, _ => rfl

end Dots

/-- Where the path of an address has ended, nothing that follows belongs to it. -/
theorem plainAddress_append_of_ended {site : RawText} (rest : RawText) (hended : ¬Bare site) :
    plainAddress (site ++ rest) = plainAddress site ++ rest := by
  have htake : (site ++ rest).points.takeWhile isPathSign = site.points.takeWhile isPathSign := by
    rw [RawText.points_append, List.takeWhile_append, if_neg]
    intro hlength
    exact hended (List.takeWhile_eq_self_iff.mp
      ((List.takeWhile_prefix isPathSign).eq_of_length hlength))
  have hdrop : (site ++ rest).points.dropWhile isPathSign =
      site.points.dropWhile isPathSign ++ rest.points := by
    rw [RawText.points_append, List.dropWhile_append, if_neg]
    rw [List.isEmpty_iff, List.dropWhile_eq_nil_iff]
    exact hended
  rw [plainAddress, htake, hdrop]
  exact RawText.ext (List.append_assoc ..).symm

theorem plainAddress_of_bare {address : RawText} (hbare : Bare address) :
    plainAddress address = ofSegments (withoutDots (segments address)) := by
  rw [plainAddress, List.takeWhile_eq_self_iff.mpr hbare, List.dropWhile_eq_nil_iff.mpr hbare]
  exact RawText.append_empty _

/-- A plain path behind a slash is still behind it in the plain form of the whole address. -/
theorem plainAddress_append (site : RawText) {rest : RawText} (hplain : Plain rest)
    (hbare : Bare rest) :
    plainAddress (site ++ "/" ++ rest) = plainAddress (site ++ "/") ++ rest := by
  by_cases hsite : Bare (site ++ "/")
  · have hwhole : Bare (site ++ "/" ++ rest) := by
      rw [Bare, RawText.points_append]
      exact List.forall_mem_append.mpr ⟨hsite, hbare⟩
    have hends : segments (site ++ "/") = segments site ++ [[]] := by
      rw [← RawText.append_empty (site ++ "/"), segments_append_slash, segments_empty]
    have hundotted : ∀ segment ∈ segments rest, segment ≠ here ∧ segment ≠ up :=
      fun segment hsegment => (hplain segment hsegment).2
    rw [plainAddress_of_bare hwhole, plainAddress_of_bare hsite, segments_append_slash, hends,
      withoutDots_append (segments_ne_nil rest) hundotted,
      withoutDots_append (List.cons_ne_nil _ _) (by simp [here, up]),
      hostDepth_append (segments_ne_nil site) (segments_ne_nil rest) hplain,
      ofSegments_append (segments_ne_nil rest), ofSegments_segments]
  · exact plainAddress_append_of_ended rest hsite

example : plainAddress ("https://example.org/a/./b/../.." ++ "/" ++ "c/d.sol") =
    "https://example.org/c/d.sol" := by
  decide +kernel

end ContractBench.Source
