import TrackedSections.Proofs.Document.Tiling
import TrackedSections.Proofs.Marker.Reader

/-!
# Numbered lines, their markers and their content

The lines of a file are numbered one by one and read one by one. `marksFrom` and `contentFrom` are
what a stretch of lines contributes to the markers and to the content of its file, so that both can
be computed part by part (`marks_from_append`, `content_from_append`). Markers and content lines come
in the order of their numbers, and markers on one line are equal (`mark_eq_of_line_eq`).
-/

namespace TrackedSections.Assembly

open Text

/-! ## Numbers -/

/-- The numbers go on after a stretch of lines. -/
theorem number_append (start : Int) (ls ls' : List Text) :
    number start (ls ++ ls') = number start ls ++ number (start + ls.length) ls' := by
  induction ls generalizing start with
  | nil => simp [number]
  | cons l ls ih =>
      simp only [number, List.cons_append, ih, List.length_cons]
      congr 3
      omega

/-- A numbered line is one of the lines, and its number is that of its place. -/
theorem mem_number {start : Int} {ls : List Text} {a : Numbered} (h : a ∈ number start ls) :
    start ≤ a.1 ∧ a.1 < start + ls.length ∧ a.2 ∈ ls := by
  induction ls generalizing start with
  | nil => cases h
  | cons l ls ih =>
      rw [List.length_cons]
      rcases List.mem_cons.1 h with rfl | h
      · exact ⟨Int.le_refl _, by dsimp only; omega, List.mem_cons_self⟩
      · obtain ⟨hge, hlt, hmem⟩ := ih h
        exact ⟨by omega, by omega, List.mem_cons_of_mem _ hmem⟩

/-- Numbers ascend. -/
theorem ascending_number (start : Int) (ls : List Text) : Ascending (number start ls) := by
  induction ls generalizing start with
  | nil => exact .nil
  | cons l ls ih =>
      refine List.pairwise_cons.2 ⟨fun a ha => ?_, ih (start + 1)⟩
      have := (mem_number ha).1
      show start < a.1
      omega

/-- Without the numbers the lines are as before. -/
theorem map_snd_number (start : Int) (ls : List Text) : (number start ls).map (·.2) = ls := by
  induction ls generalizing start with
  | nil => rfl
  | cons l ls ih => simp [number, ih]

/-! ## Markers and content -/

/-- The markers on some lines of which the first has the number `start`. -/
def marksFrom (commentPrefix : Text) (start : Int) (ls : List Text) : List Marker :=
  (number start ls).filterMap fun (n, line) => (Marker.read commentPrefix n line).marker?

/-- The content lines among some lines of which the first has the number `start`. -/
def contentFrom (commentPrefix : Text) (start : Int) (ls : List Text) : List Numbered :=
  (number start ls).filter fun (_, line) => Marker.isContent commentPrefix line

variable {commentPrefix : Text}

/-- The markers of a file are those on its lines. -/
theorem markers_of_read_lines (ls : List Text) :
    markersOf (readLines commentPrefix ls) = marksFrom commentPrefix 1 ls := by
  rw [markersOf, readLines, List.filterMap_map]
  rfl

/-- The content of a file is that of its lines. -/
theorem content_of_read_lines (ls : List Text) :
    contentOf (readLines commentPrefix ls) = contentFrom commentPrefix 1 ls := by
  have hcontent : ∀ a : Numbered, (Marker.read commentPrefix a.1 a.2).marker?.isNone =
      Marker.isContent commentPrefix a.2 := fun a => Marker.is_none_marker_read _ _ _
  rw [contentOf, readLines, List.filter_map, List.map_map]
  simp only [Function.comp_def, hcontent, contentFrom]
  exact List.map_id'' (fun _ => rfl) _

theorem marks_from_append (start : Int) (ls ls' : List Text) :
    marksFrom commentPrefix start (ls ++ ls') =
      marksFrom commentPrefix start ls ++ marksFrom commentPrefix (start + ls.length) ls' := by
  rw [marksFrom, number_append, List.filterMap_append, marksFrom, marksFrom]

theorem content_from_append (start : Int) (ls ls' : List Text) :
    contentFrom commentPrefix start (ls ++ ls') =
      contentFrom commentPrefix start ls ++ contentFrom commentPrefix (start + ls.length) ls' := by
  rw [contentFrom, number_append, List.filter_append, contentFrom, contentFrom]

/-- Content lines come in the order of their numbers. -/
theorem ascending_content_from (start : Int) (ls : List Text) :
    Ascending (contentFrom commentPrefix start ls) :=
  (ascending_number start ls).sublist List.filter_sublist

/-- A content line is one of the lines, and its number is that of its place. -/
theorem mem_content_from {start : Int} {ls : List Text} {a : Numbered}
    (h : a ∈ contentFrom commentPrefix start ls) : start ≤ a.1 ∧ a.1 < start + ls.length := by
  have := mem_number (List.mem_filter.1 h).1
  exact ⟨this.1, this.2.1⟩

/-- The content lines, closed one after another. -/
theorem flat_map_content_from (start : Int) (ls : List Text) :
    ((contentFrom commentPrefix start ls).flatMap fun (_, line) => closeLine line) =
      closeLines (ls.filter (Marker.isContent commentPrefix)) := by
  have hlines : (contentFrom commentPrefix start ls).map (·.2) =
      ls.filter (Marker.isContent commentPrefix) := by
    calc (contentFrom commentPrefix start ls).map (·.2)
        = ((number start ls).map (·.2)).filter (Marker.isContent commentPrefix) := by
          rw [List.filter_map]
          rfl
      _ = ls.filter (Marker.isContent commentPrefix) := by rw [map_snd_number]
  rw [← hlines, closeLines, List.flatMap_map]

/-- A marker comes from a line with its number. -/
theorem mem_marks_from {start : Int} {ls : List Text} {m : Marker}
    (h : m ∈ marksFrom commentPrefix start ls) :
    commentPrefix ≠ [] ∧ m.WellFormed ∧ start ≤ m.line ∧ m.line < start + ls.length ∧
      ∃ l ∈ ls, commentPrefix <+: l := by
  obtain ⟨a, ha, hread⟩ := List.mem_filterMap.1 h
  have hmarker : Marker.read commentPrefix a.1 a.2 = .marker m := by
    cases hr : Marker.read commentPrefix a.1 a.2 with
    | marker m' => simpa [hr, Marker.Reading.marker?] using hread
    | content | faulty => simp [hr, Marker.Reading.marker?] at hread
  obtain ⟨hne, hstart, hline, hm⟩ := Marker.read_eq_marker hmarker
  obtain ⟨hge, hlt, hmem⟩ := mem_number ha
  exact ⟨hne, hm, hline ▸ hge, hline ▸ hlt, a.2, hmem, hstart⟩

/-- The markers on some lines are that on the first and those on the others. -/
theorem marks_from_cons (start : Int) (l : Text) (ls : List Text) :
    marksFrom commentPrefix start (l :: ls) =
      (Marker.read commentPrefix start l).marker?.toList ++
        marksFrom commentPrefix (start + 1) ls := by
  simp only [marksFrom, number, List.filterMap_cons]
  cases (Marker.read commentPrefix start l).marker? <;> rfl

/-- Markers come in the order of their lines. -/
theorem pairwise_marks_from (start : Int) (ls : List Text) :
    (marksFrom commentPrefix start ls).Pairwise fun m m' => m.line < m'.line := by
  induction ls generalizing start with
  | nil => exact .nil
  | cons l ls ih =>
      rw [marks_from_cons, List.pairwise_append]
      refine ⟨?_, ih (start + 1), fun m hm m' hm' => ?_⟩
      · cases (Marker.read commentPrefix start l).marker? <;> simp
      · have hfirst : m ∈ marksFrom commentPrefix start [l] := by
          simpa [marks_from_cons, marksFrom, number] using hm
        have hle := (mem_marks_from hfirst).2.2.2.1
        have hge := (mem_marks_from hm').2.2.1
        simp only [List.length_singleton] at hle
        omega

end TrackedSections.Assembly
