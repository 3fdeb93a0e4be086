import ContractBench.Proofs.Source.Segments
import Mathlib.Data.List.DropRight

/-! # Relative paths

Relative paths that are followed one after the other: a file imports a second one, and that one a
third. From the first file the third is named by the path of the second up to its last slash, with
the path of the third behind it. A path that goes up often enough leads to the same place from
every file.
-/

namespace ContractBench.Source

/-- A path up to its last slash, with the slash. -/
def baseOf (path : RawText) : RawText := ⟨path.points.rdropWhile (· != slash)⟩

/-- A path with a number of steps up in front of it. -/
def upwards : Nat → RawText → RawText
  | 0, path => path
  | steps + 1, path => "../" ++ upwards steps path

variable {path current specifier front back : RawText} {place rest : List (List CodePoint)}
  {segment : List CodePoint}

section Forms

theorem segments_of_slash_notMem (h : slash ∉ path.points) : segments path = [path.points] := by
  rw [segments, Text.pieces_eq_splitOn, List.splitOn_eq_singleton h]

theorem ofSegments_cons (hrest : rest ≠ []) :
    ofSegments (segment :: rest) = RawText.mk segment ++ "/" ++ ofSegments rest := by
  have hfirst : ofSegments ([segment] ++ [[]]) = RawText.mk segment ++ "/" := by
    ext1
    simp [ofSegments, slash]
  rw [← List.singleton_append, ofSegments_append hrest, hfirst]

/-- A path begins with a name and a slash just where the name is its first segment and not the only
one. -/
theorem beginsWith_slash_iff {name : RawText} (hname : slash ∉ name.points) :
    RawText.beginsWith (name ++ "/") path = true ↔
      ∃ rest, rest ≠ [] ∧ segments path = name.points :: rest := by
  constructor
  · intro h
    obtain ⟨back, rfl⟩ := RawText.beginsWith_iff.mp h
    refine ⟨segments back, segments_ne_nil back, ?_⟩
    rw [segments_append_slash, segments_of_slash_notMem hname, List.singleton_append]
  · rintro ⟨rest, hrest, hsegments⟩
    rw [← ofSegments_segments path, hsegments, ofSegments_cons hrest]
    exact RawText.beginsWith_append _ _

/-- What is written behind a slash does not decide whether a path is relative. -/
theorem isRelative_append_slash_iff : isRelative (front ++ "/" ++ back) = true ↔
    (segments front).head? = some here ∨ (segments front).head? = some up := by
  obtain ⟨first, more, hfront⟩ := List.exists_cons_of_ne_nil (segments_ne_nil front)
  have hbegins : ∀ name : RawText, slash ∉ name.points →
      (RawText.beginsWith (name ++ "/") (front ++ "/" ++ back) = true ↔ first = name.points) := by
    intro name hname
    rw [beginsWith_slash_iff hname, segments_append_slash, hfront]
    simp [segments_ne_nil]
  have hdot := hbegins "." (by decide)
  have hdots := hbegins ".." (by decide)
  rw [isRelative, Bool.or_eq_true, hfront, List.head?_cons, Option.some_inj, Option.some_inj]
  exact or_congr hdot hdots

/-- A path with a slash is cut at its last one. -/
theorem exists_eq_append_slash (h : slash ∈ path.points) :
    ∃ front name : RawText, path = front ++ "/" ++ name ∧ slash ∉ name.points ∧
      baseOf path = front ++ "/" := by
  have hsome : path.points.rdropWhile (· != slash) ≠ [] := by
    rw [Ne, List.rdropWhile_eq_nil_iff]
    exact fun hall => by simpa using hall slash h
  have hslash : (path.points.rdropWhile (· != slash)).getLast hsome = slash := by
    simpa using List.rdropWhile_last_not (· != slash) path.points hsome
  have hbase : baseOf path =
      RawText.mk (path.points.rdropWhile (· != slash)).dropLast ++ "/" := by
    have hsplit := List.dropLast_append_getLast hsome
    rw [hslash] at hsplit
    exact RawText.ext hsplit.symm
  refine ⟨_, ⟨path.points.rtakeWhile (· != slash)⟩, ?_, ?_, hbase⟩
  · rw [← hbase]
    exact RawText.ext List.rdropWhile_append_rtakeWhile.symm
  · exact fun hmem => by simpa using List.mem_rtakeWhile_imp hmem

theorem slash_mem_of_isRelative (h : isRelative path = true) : slash ∈ path.points := by
  rw [isRelative, Bool.or_eq_true] at h
  rcases h with h | h <;>
  · obtain ⟨back, rfl⟩ := RawText.beginsWith_iff.mp h
    simp [slash]

end Forms

section Composition

theorem moveAlong_of_isName (h : IsName segment) :
    moveAlong place segment = place ++ [segment] := by
  rw [moveAlong, if_neg h.2.2, if_neg (not_or.mpr ⟨h.2.1, h.1⟩)]

/-- A relative path to a named file leads into the folder to which its part before the name
leads. -/
theorem folder_resolve {name : RawText} (hrelative : isRelative (front ++ "/" ++ name) = true)
    (hslash : slash ∉ name.points) (hname : IsName name.points) :
    folder (resolve current (front ++ "/" ++ name)) =
      (segments front).foldl moveAlong (folder current) := by
  have hwhole : (segments (front ++ "/" ++ name)).foldl moveAlong (folder current) =
      (segments front).foldl moveAlong (folder current) ++ [name.points] := by
    rw [segments_append_slash, segments_of_slash_notMem hslash, List.foldl_concat,
      moveAlong_of_isName hname]
  rw [folder, resolve, if_pos hrelative,
    segments_ofSegments _ fun part hpart => slash_notMem_of_mem_foldl hpart]
  · rw [hwhole, List.dropLast_concat]
  · rw [hwhole]
    exact List.concat_ne_nil _ _

/-- Two relative paths that are followed one after the other lead where one path leads that is made
of both. -/
theorem resolve_resolve {next : RawText} (hrelative : isRelative specifier = true)
    (hnext : isRelative next = true)
    (hname : ∀ segment ∈ (segments specifier).getLast?, IsName segment) :
    resolve (resolve current specifier) next = resolve current (baseOf specifier ++ next) := by
  obtain ⟨front, name, rfl, hslash, hbase⟩ :=
    exists_eq_append_slash (slash_mem_of_isRelative hrelative)
  have hlast : name.points ∈ (segments (front ++ "/" ++ name)).getLast? := by
    rw [segments_append_slash, segments_of_slash_notMem hslash, List.getLast?_concat]
    rfl
  have hboth : isRelative (front ++ "/" ++ next) = true :=
    isRelative_append_slash_iff.mpr (isRelative_append_slash_iff.mp hrelative)
  have hfolder : folder (resolve current (front ++ "/" ++ name)) =
      (segments front).foldl moveAlong (folder current) :=
    folder_resolve hrelative hslash (hname _ hlast)
  rw [hbase, resolve, if_pos hnext, hfolder, resolve, if_pos hboth, segments_append_slash,
    List.foldl_append]

end Composition

section Up

variable {steps : Nat}

theorem segments_upwards (steps : Nat) (path : RawText) :
    segments (upwards steps path) = List.replicate steps up ++ segments path := by
  induction steps with
  | zero => rfl
  | succ steps ih =>
      have hstep : upwards (steps + 1) path = ".." ++ "/" ++ upwards steps path := rfl
      rw [hstep, segments_append_slash, ih]
      rfl

theorem isRelative_upwards (hsteps : 0 < steps) (path : RawText) :
    isRelative (upwards steps path) = true := by
  obtain ⟨steps, rfl⟩ := Nat.exists_eq_succ_of_ne_zero hsteps.ne'
  rw [isRelative, Bool.or_eq_true]
  exact Or.inr (RawText.beginsWith_append "../" _)

/-- As many steps up as a place is deep lead to the top, and more stay there. -/
theorem foldl_moveAlong_up (h : place.length ≤ steps) :
    (List.replicate steps up).foldl moveAlong place = [] := by
  induction steps generalizing place with
  | zero => exact List.eq_nil_of_length_eq_zero (Nat.le_zero.mp h)
  | succ steps ih =>
      rw [List.replicate_succ, List.foldl_cons]
      refine ih ?_
      rw [moveAlong, if_pos rfl, List.length_dropLast]
      omega

/-- From the top it makes no difference which file named the way. -/
theorem resolve_upwards (h : max (folder current).length 1 ≤ steps) (path : RawText) :
    resolve current (upwards steps path) = resolve "" ("./" ++ path) := by
  obtain ⟨hdepth, hsteps⟩ := Nat.max_le.mp h
  have hhere : isRelative ("./" ++ path) = true := by
    rw [isRelative, Bool.or_eq_true]
    exact Or.inl (RawText.beginsWith_append "./" path)
  have hsegments : segments ("./" ++ path) = here :: segments path := segments_append_slash "." path
  rw [resolve, if_pos (isRelative_upwards hsteps path), segments_upwards, List.foldl_append,
    foldl_moveAlong_up hdepth, resolve, if_pos hhere, hsegments]
  rfl

end Up

/-- Relative paths can be followed one after the other or at once. From a folder of names they lead
to paths of names, or up to nothing, and a path that goes up at least as often as its folder is deep
leads where it leads from the top. -/
theorem resolve_relative_composes (current : RawText) :
    (∀ specifier next, isRelative specifier = true → isRelative next = true →
      (∀ segment ∈ (segments specifier).getLast?, IsName segment) →
        resolve (resolve current specifier) next = resolve current (baseOf specifier ++ next)) ∧
    ((∀ segment ∈ folder current, IsName segment) → ∀ specifier, isRelative specifier = true →
      resolve current specifier = "" ∨ Plain (resolve current specifier)) ∧
    ∀ steps path, max (folder current).length 1 ≤ steps →
      resolve current (upwards steps path) = resolve "" ("./" ++ path) :=
  ⟨fun _ _ => resolve_resolve, fun hfolder _ hrelative => plain_resolve hrelative hfolder,
    fun _ path hsteps => resolve_upwards hsteps path⟩

/-- A file two folders down imports one of another folder, which imports one beside its folder. -/
theorem resolve_relative_composes_of_chain :
    isRelative "../u/./B.sol" = true ∧ isRelative "../C.sol" = true ∧
    (∀ segment ∈ (segments "../u/./B.sol").getLast?, IsName segment) ∧
    (∀ segment ∈ folder "lib/t/A.sol", IsName segment) ∧
    baseOf "../u/./B.sol" = "../u/./" ∧
    resolve (resolve "lib/t/A.sol" "../u/./B.sol") "../C.sol" =
      resolve "lib/t/A.sol" "../u/./../C.sol" ∧
    Plain (resolve "lib/t/A.sol" "../u/./B.sol") ∧
    resolve "lib/t/A.sol" "../../../../D.sol" = resolve "lib/t/A.sol" "../../D.sol" := by
  obtain ⟨hcomposes, hplain, hup⟩ := resolve_relative_composes "lib/t/A.sol"
  have hfirst : isRelative "../u/./B.sol" = true := by decide +kernel
  have hnext : isRelative "../C.sol" = true := by decide +kernel
  have hname : ∀ segment ∈ (segments "../u/./B.sol").getLast?, IsName segment := by
    decide +kernel
  have hfolder : ∀ segment ∈ folder "lib/t/A.sol", IsName segment := by decide +kernel
  have hbase : baseOf "../u/./B.sol" = "../u/./" := by decide +kernel
  have hboth := hcomposes "../u/./B.sol" "../C.sol" hfirst hnext hname
  rw [hbase] at hboth
  refine ⟨hfirst, hnext, hname, hfolder, hbase, hboth, ?_, ?_⟩
  · exact (hplain hfolder "../u/./B.sol" hfirst).resolve_left (by decide +kernel)
  · exact (hup 4 "D.sol" (by decide +kernel)).trans (hup 2 "D.sol" (by decide +kernel)).symm

end ContractBench.Source
