import ContractBench.Proofs.Text.Trimming
import ContractBench.Source.Path

/-! # Segments

Names among the segments of a path. Along a relative path one comes to names only, if the place
where it begins has no other segments.
-/

namespace ContractBench.Source

/-- A segment that is a name: not empty, and not one or two dots. -/
def IsName (segment : List CodePoint) : Prop :=
  segment ≠ [] ∧ segment ≠ here ∧ segment ≠ up

instance : DecidablePred IsName := fun segment =>
  inferInstanceAs (Decidable (segment ≠ [] ∧ segment ≠ here ∧ segment ≠ up))

/-- A path of which all segments are names. -/
def Plain (path : RawText) : Prop := ∀ segment ∈ segments path, IsName segment

instance : DecidablePred Plain := fun path =>
  inferInstanceAs (Decidable (∀ segment ∈ segments path, IsName segment))

variable {path current specifier : RawText} {place steps parts : List (List CodePoint)}
  {segment : List CodePoint}

theorem slash_notMem_of_mem_segments (h : segment ∈ segments path) : slash ∉ segment :=
  Text.notMem_of_mem_pieces h

theorem segments_ne_nil (path : RawText) : segments path ≠ [] := by
  obtain ⟨_, _, hsegments⟩ := Text.exists_pieces_eq_cons slash path.points
  rw [segments, hsegments]
  exact List.cons_ne_nil _ _

theorem segments_append_slash (first second : RawText) :
    segments (first ++ "/" ++ second) = segments first ++ segments second := by
  have hslash : (first ++ "/" ++ second).points = first.points ++ slash :: second.points := by
    simp [slash]
  rw [segments, segments, segments, hslash, Text.pieces_eq_splitOn, List.splitOn_append_cons_self,
    ← Text.pieces_eq_splitOn, ← Text.pieces_eq_splitOn]

theorem segments_ofSegments (hsome : parts ≠ []) (hslash : ∀ part ∈ parts, slash ∉ part) :
    segments (ofSegments parts) = parts := by
  rw [segments, ofSegments, Text.pieces_eq_splitOn, List.splitOn_intercalate slash hslash hsome]

theorem ofSegments_segments (path : RawText) : ofSegments (segments path) = path := by
  rw [ofSegments, segments, Text.pieces_eq_splitOn, List.intercalate_splitOn]

theorem ofSegments_append {first second : List (List CodePoint)} (hsome : second ≠ []) :
    ofSegments (first ++ second) = ofSegments (first ++ [[]]) ++ ofSegments second := by
  ext1
  rw [RawText.points_append]
  simp only [ofSegments]
  induction first with
  | nil => rw [List.nil_append, List.nil_append, List.intercalate_singleton, List.nil_append]
  | cons part first ih =>
      have hne : ∀ more : List (List CodePoint), more ≠ [] → first ++ more ≠ [] := fun more hmore =>
        List.append_ne_nil_of_right_ne_nil first hmore
      rw [List.cons_append, List.cons_append, List.intercalate_cons_of_ne_nil (hne _ hsome),
        List.intercalate_cons_of_ne_nil (hne _ (List.cons_ne_nil _ _)), ih]
      simp only [List.append_assoc]

theorem segments_empty : segments "" = [[]] := rfl

theorem Plain.ne_empty (h : Plain path) : path ≠ "" := by
  rintro rfl
  exact (h [] (segments_empty ▸ List.mem_cons_self)).1 rfl

theorem plain_append_slash_iff {first second : RawText} :
    Plain (first ++ "/" ++ second) ↔ Plain first ∧ Plain second := by
  rw [Plain, segments_append_slash, List.forall_mem_append]
  rfl

theorem isName_of_mem_folder (h : Plain path) (hmem : segment ∈ folder path) : IsName segment :=
  h segment (List.dropLast_subset _ hmem)

/-- Along a relative path one comes to segments of the place where it begins and to names on the
way. -/
theorem mem_of_mem_moveAlong (h : segment ∈ steps.foldl moveAlong place) :
    segment ∈ place ∨ segment ∈ steps ∧ IsName segment := by
  induction steps generalizing place with
  | nil => exact Or.inl h
  | cons step steps ih =>
      rcases ih h with hplace | ⟨hmem, hname⟩
      · unfold moveAlong at hplace
        split at hplace
        next => exact Or.inl (List.dropLast_subset _ hplace)
        next hdots =>
          split at hplace
          next => exact Or.inl hplace
          next hstays =>
            rcases List.mem_append.mp hplace with hplace | hstep
            · exact Or.inl hplace
            · obtain rfl := List.mem_singleton.mp hstep
              rw [not_or] at hstays
              exact Or.inr ⟨List.mem_cons_self, hstays.2, hstays.1, hdots⟩
      · exact Or.inr ⟨List.mem_cons_of_mem step hmem, hname⟩

/-- Where one comes along a path no segment holds a slash. -/
theorem slash_notMem_of_mem_foldl
    (h : segment ∈ (segments specifier).foldl moveAlong (folder current)) : slash ∉ segment := by
  rcases mem_of_mem_moveAlong h with hplace | ⟨hstep, -⟩
  · exact slash_notMem_of_mem_segments (List.dropLast_subset _ hplace)
  · exact slash_notMem_of_mem_segments hstep

/-- A relative path read from a folder of names leads to a path of names, or up to nothing. -/
theorem plain_resolve (hrelative : isRelative specifier = true)
    (hfolder : ∀ segment ∈ folder current, IsName segment) :
    resolve current specifier = "" ∨ Plain (resolve current specifier) := by
  rw [resolve, if_pos hrelative]
  rcases hparts : (segments specifier).foldl moveAlong (folder current) with _ | ⟨first, rest⟩
  · exact Or.inl rfl
  · right
    have hslash : ∀ part ∈ first :: rest, slash ∉ part := fun part hpart =>
      slash_notMem_of_mem_foldl (hparts ▸ hpart)
    rw [Plain, segments_ofSegments (List.cons_ne_nil first rest) hslash]
    intro part hpart
    rcases mem_of_mem_moveAlong (hparts ▸ hpart) with hplace | ⟨-, hname⟩
    · exact hfolder part hplace
    · exact hname

end ContractBench.Source
