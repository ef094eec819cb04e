import TrackedSections.Proofs.Document.Tracks

/-!
# Sections partition the lines of a file

`sections_partition_lines` says that the sections of any text tile its lines, that tracked sections are
told apart by their names, and that each section has the content lines in its range, so that together
the sections have every content line of the file once and in order.
-/

namespace TrackedSections

open Assembly Text

/-- The lines with the numbers from `first` to `last`. -/
def Text.linesBetween (first last : Int) (ls : List Text) : List Text :=
  (ls.drop (first - 1).toNat).take (last + 1 - first).toNat

namespace Document

variable {commentPrefix : Text}

/-- A section within a file has the content lines between its first and its last line. -/
theorem content_in_content_from {s : Section} {ls : List Text} (hfirst : 1 ≤ s.first)
    (hforward : s.first ≤ s.last) (hlast : s.last ≤ ls.length) :
    contentIn s (contentFrom commentPrefix 1 ls) =
      closeLines ((linesBetween s.first s.last ls).filter (Marker.isContent commentPrefix)) := by
  -- The lines before the section, its own and those after it, with the numbers they have in the file.
  let before := ls.take (s.first - 1).toNat
  let after := (ls.drop (s.first - 1).toNat).drop (s.last + 1 - s.first).toNat
  have hsplit : ls = before ++ (linesBetween s.first s.last ls ++ after) := by
    simp only [before, after, linesBetween, List.take_append_drop]
  have hbefore : (before.length : Int) = s.first - 1 := by
    simp only [before, List.length_take]
    omega
  have hbetween : ((linesBetween s.first s.last ls).length : Int) = s.last + 1 - s.first := by
    simp only [linesBetween, List.length_take, List.length_drop]
    omega
  have hcontent : contentFrom commentPrefix 1 ls = contentFrom commentPrefix 1 before ++
      (contentFrom commentPrefix s.first (linesBetween s.first s.last ls) ++
        contentFrom commentPrefix (s.last + 1) after) := by
    conv => lhs; rw [hsplit]
    rw [content_from_append, content_from_append, hbefore, hbetween]
    congr 3 <;> omega
  have hnoneBefore : contentIn s (contentFrom commentPrefix 1 before) = [] := by
    apply content_in_eq_nil
    intro a ha
    have := (mem_content_from ha).2
    omega
  have hnoneAfter : contentIn s (contentFrom commentPrefix (s.last + 1) after) = [] := by
    apply content_in_eq_nil
    intro a ha
    have := (mem_content_from ha).1
    omega
  have hall : ∀ a ∈ contentFrom commentPrefix s.first (linesBetween s.first s.last ls),
      s.first ≤ a.1 ∧ a.1 ≤ s.last := by
    intro a ha
    have := mem_content_from ha
    omega
  rw [hcontent, content_in_append, content_in_append, hnoneBefore, hnoneAfter,
    content_in_eq_all hall, flat_map_content_from, List.nil_append, List.append_nil]

/-- The sections of a file tile its lines. -/
theorem tiles_sections_of_lines (commentPrefix : Text) (path : Option Path) (finalNewline : Bool)
    (ls : List Text) :
    Tiles 1 ls.length (ofLines commentPrefix path finalNewline ls).1.sections := by
  rw [sections_of_lines]
  exact (tiles_lay_out (fits_tracks commentPrefix ls)).map (by simp) (by simp)

/-- Each section of a file has the content lines in its range. -/
theorem content_of_mem_sections {path : Option Path} {finalNewline : Bool} {ls : List Text}
    {s : Section} (hs : s ∈ (ofLines commentPrefix path finalNewline ls).1.sections) :
    s.content = contentIn s (contentFrom commentPrefix 1 ls) := by
  rw [sections_of_lines] at hs
  obtain ⟨bare, hbare, rfl⟩ := List.mem_map.1 hs
  rw [Section.content_finalize, Section.content_append, content_eq_nil_of_mem_lay_out hbare,
    List.nil_append]
  simp [contentIn, Section.contains]

/-- The sections of a text cover its lines in order, one range after the other and none empty. No two
tracked sections have one name and none has that of the whole file. The content of each section is
that of the lines in its range that are no markers, and all contents together are those of all lines
that are no markers. -/
theorem sections_partition_lines (commentPrefix : Text) (path : Option Path) (t : Text) :
    Tiles 1 t.lines.1.length (ofText commentPrefix path t).1.sections ∧
      (ofText commentPrefix path t).1.names.Nodup ∧
      Marker.wholeFile ∉ (ofText commentPrefix path t).1.names ∧
      (∀ s ∈ (ofText commentPrefix path t).1.sections, s.content =
        closeLines ((linesBetween s.first s.last t.lines.1).filter
          (Marker.isContent commentPrefix))) ∧
      (ofText commentPrefix path t).1.sections.flatMap (·.content) =
        closeLines (t.lines.1.filter (Marker.isContent commentPrefix)) := by
  have hdoc : (ofText commentPrefix path t).1 =
      (ofLines commentPrefix path t.lines.2 t.lines.1).1 := rfl
  have htiles := tiles_sections_of_lines commentPrefix path t.lines.2 t.lines.1
  rw [hdoc]
  refine ⟨htiles, ?_, ?_, fun s hs => ?_, ?_⟩
  · rw [names_of_lines]
    exact nodup_names_tracks _
  · rw [names_of_lines]
    exact whole_file_not_mem_tracks _
  · obtain ⟨hfirst, hforward, hlast⟩ := htiles.mem_range hs
    rw [content_of_mem_sections hs, content_in_content_from hfirst hforward hlast]
  · rw [← flat_map_content_from 1, ← flat_map_content_in htiles (ascending_content_from 1 _)
      fun a ha => by have := mem_content_from ha; omega]
    rw [List.flatMap_def, List.flatMap_def, List.map_congr_left fun s => content_of_mem_sections]

end Document

end TrackedSections
