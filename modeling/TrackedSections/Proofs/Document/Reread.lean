import Mathlib.Data.List.Basic
import TrackedSections.Proofs.Document.Parts

/-!
# Parts are read back

Read `tracks_section_marks_at` first: the markers of readable parts describe just the sections of their
blocks, each where it stands. With the content lines between them, `sections_of_lines` says which sections
a file of such parts has, by recursion on the parts (`sectionsFrom`), and `parts_of_lines` gets back all
parts but the properties from these sections, in order.
-/

namespace TrackedSections

open Text Assembly MarkerIndex

namespace Block

variable {commentPrefix : Text} {b : Block}

/-- A block has no marker twice and none too few. -/
theorem group_defect_marks (start : Int) : groupDefect? (b.name, b.marks start) = none := by
  unfold groupDefect?
  split
  · rfl
  · cases hsource : b.source <;> simp [marks, hsource, defect_eq_none]

/-- The markers of a valid block describe its section. -/
theorem of_index_eq_track (h : b.Valid commentPrefix) {start : Int} {ms : List Marker}
    (hown : own ms b.name = b.marks start) (hname : b.name ∈ validNames ms) :
    Tracked.ofIndex (ofList ms).validate b.name = .ok (b.track start) := by
  have hget := fun kind => get_validate hname kind
  have hstart : (ofList ms).validate.get? b.name .start = some ⟨start, b.name, .start, none⟩ := by
    rw [hget, hown]
    rfl
  have hhash : (ofList ms).validate.get? b.name .hash =
      some ⟨start + 1, b.name, .hash, some b.accepted⟩ := by
    rw [hget, hown]
    rfl
  have hstop : (ofList ms).validate.get? b.name .stop =
      some ⟨start + b.size - 1, b.name, .stop, none⟩ := by
    rw [hget, hown]
    cases hsource : b.source <;> simp [marks, hsource]
  have hsource : ((ofList ms).validate.get? b.name .source).bind (·.argument) = b.source := by
    rw [hget, hown]
    cases hsource : b.source <;> simp [marks, hsource]
  have hforward : ¬ start + b.size - 1 < start := by
    simp only [size]
    omega
  obtain ⟨c, rest, haccepted⟩ := List.exists_cons_of_ne_nil h.accepted_word.1
  simp only [Tracked.ofIndex, hstart, hstop, hhash, hsource, hforward, if_false, haccepted]
  rw [track, haccepted]

end Block

namespace Part

variable {commentPrefix : Text} {p : Part} {parts : List Part}

/-- The name of a block that comes later is not that of an earlier one. -/
theorem Readable.name_not_mem {b : Block} (h : Readable commentPrefix (.block b :: parts)) :
    b.name ∉ (blocks parts).map (·.name) :=
  (List.nodup_cons.1 h.nodup).1

/-- The names of the sections of a list of parts are those of its blocks. -/
theorem names_tracks_at (start : Int) (parts : List Part) :
    (tracksAt start parts).map (·.name) = (blocks parts).map (·.name) := by
  induction parts generalizing start with
  | nil => rfl
  | cons p parts ih =>
      rw [tracksAt, List.map_append, ih]
      cases p <;> rfl

/-- A marker of a section of some parts is named like one of their blocks. -/
theorem scope_of_mem_section_marks_at {start : Int} {m : Marker}
    (h : m ∈ sectionMarksAt start parts) : m.scope ∈ (blocks parts).map (·.name) := by
  induction parts generalizing start with
  | nil => cases h
  | cons p parts ih =>
      rcases List.mem_append.1 h with h | h
      · cases p with
        | line text | property kind argument => cases h
        | block b => exact Block.scope_of_mem_marks h ▸ List.mem_cons_self
      · have hrest := ih h
        cases p with
        | line text | property kind argument => exact hrest
        | block b => exact List.mem_cons_of_mem _ hrest

/-- The markers of the sections after a block have other names than the block. -/
theorem Readable.scope_ne {b : Block} (h : Readable commentPrefix (.block b :: parts))
    {start : Int} : ∀ m ∈ sectionMarksAt start parts, m.scope ≠ b.name := by
  intro m hm heq
  exact h.name_not_mem (heq ▸ scope_of_mem_section_marks_at hm)

/-- The names of the markers are those of the blocks in their order. -/
theorem Readable.names_section_marks_at (h : Readable commentPrefix parts) (start : Int) :
    names (sectionMarksAt start parts) = (blocks parts).map (·.name) := by
  induction parts generalizing start with
  | nil => rfl
  | cons p parts ih =>
      cases p with
      | line text | property kind argument => exact ih h.tail _
      | block b =>
          have hne : b.marks start ≠ [] := List.cons_ne_nil _ _
          rw [sectionMarksAt, sectionMarks,
            names_append hne (fun _ => Block.scope_of_mem_marks) h.scope_ne, ih h.tail]
          rfl

/-- The markers of a section are those with its name. -/
theorem Readable.own_section_marks_at (h : Readable commentPrefix parts) {start : Int} {t : Tracked}
    (ht : t ∈ tracksAt start parts) : ∃ b place, .block b ∈ parts ∧ t = b.track place ∧
      own (sectionMarksAt start parts) b.name = b.marks place := by
  induction parts generalizing start with
  | nil => cases ht
  | cons p parts ih =>
      rw [tracksAt, List.mem_append] at ht
      cases p with
      | line text | property kind argument =>
          obtain ⟨b, place, hmem, heq, hown⟩ := ih h.tail (ht.resolve_left (by simp [track?]))
          exact ⟨b, place, List.mem_cons_of_mem _ hmem, heq, hown⟩
      | block b =>
          rw [sectionMarksAt, sectionMarks]
          rcases ht with ht | ht
          · refine ⟨b, start, List.mem_cons_self, by simpa [track?] using ht, ?_⟩
            rw [own_append_right h.scope_ne, own_eq_self fun _ => Block.scope_of_mem_marks]
          · obtain ⟨c, place, hmem, heq, hown⟩ := ih h.tail ht
            refine ⟨c, place, List.mem_cons_of_mem _ hmem, heq, ?_⟩
            have hne : ∀ m ∈ b.marks start, m.scope ≠ c.name := by
              intro m hm hscope
              rw [Block.scope_of_mem_marks hm] at hscope
              refine h.name_not_mem (hscope ▸ List.mem_map.2 ⟨c, ?_, rfl⟩)
              exact List.mem_filterMap.2 ⟨_, hmem, rfl⟩
            rw [own_append_left hne, hown]

/-- Each section of some parts is built from their markers. -/
theorem Readable.of_index_eq (h : Readable commentPrefix parts) {start : Int} {t : Tracked}
    (ht : t ∈ tracksAt start parts) :
    Tracked.ofIndex (ofList (sectionMarksAt start parts)).validate t.name = .ok t ∧
      t.name ∈ (ofList (sectionMarksAt start parts)).validate.sections := by
  obtain ⟨b, place, hmem, rfl, hown⟩ := h.own_section_marks_at ht
  have hb : b.Valid commentPrefix := by
    cases h.valid _ hmem with
    | block hblock => exact hblock
  have hname : b.name ∈ validNames (sectionMarksAt start parts) := by
    refine List.mem_filter.2 ⟨?_, by rw [hown, Block.group_defect_marks]; rfl⟩
    rw [h.names_section_marks_at]
    exact List.mem_map.2 ⟨b, List.mem_filterMap.2 ⟨_, hmem, rfl⟩, rfl⟩
  exact ⟨Block.of_index_eq_track hb hown hname, mem_sections_validate.2 ⟨hname, hb.name_ne_whole_file⟩⟩

/-- The names that can be tracked are those of all sections. -/
theorem Readable.sections_validate_eq (h : Readable commentPrefix parts) (start : Int) :
    (ofList (sectionMarksAt start parts)).validate.sections =
      (tracksAt start parts).map (·.name) := by
  have hnames : names (sectionMarksAt start parts) = (tracksAt start parts).map (·.name) := by
    rw [h.names_section_marks_at, names_tracks_at]
  have hall : ∀ name ∈ names (sectionMarksAt start parts),
      name ∈ (ofList (sectionMarksAt start parts)).validate.sections := by
    intro name hname
    rw [hnames] at hname
    obtain ⟨t, ht, rfl⟩ := List.mem_map.1 hname
    exact (h.of_index_eq ht).2
  rw [← hnames]
  rw [sections_validate] at hall ⊢
  rw [validNames, List.filter_filter, List.filter_eq_self]
  intro name hname
  have := hall name hname
  rw [validNames, List.filter_filter] at this
  exact (List.mem_filter.1 this).2

/-- The number of lines of a list of parts. -/
def total : List Part → Nat
  | [] => 0
  | p :: parts => p.size + total parts

@[simp] theorem total_nil : total [] = 0 := rfl

@[simp] theorem total_cons (p : Part) (parts : List Part) :
    total (p :: parts) = p.size + total parts :=
  rfl

/-- The sections of a list of parts lie one after another, each with its end after its beginning. -/
theorem fits_tracks_at {cursor start : Int} (hcursor : cursor ≤ start) (parts : List Part) :
    Fits cursor (start + total parts - 1) (tracksAt start parts) := by
  induction parts generalizing cursor start with
  | nil => exact ⟨.nil, by simp [tracksAt], by simp [tracksAt], by simpa using hcursor⟩
  | cons p parts ih =>
      have hlast : start + total (p :: parts) - 1 = start + p.size + total parts - 1 := by
        rw [total_cons]
        omega
      rw [hlast, tracksAt]
      cases p with
      | line text | property kind argument => exact ih (by simp only [size]; omega)
      | block b =>
          refine Fits.cons hcursor (by simp only [Tracked.Forward, Block.track, Block.size]; omega) ?_
          exact ih (by simp only [Block.track, size]; omega)

/-- The markers of readable parts describe the sections of their blocks. -/
theorem Readable.tracks_section_marks_at (h : Readable commentPrefix parts) (start : Int) :
    tracks (sectionMarksAt start parts) = tracksAt start parts := by
  have hbuilt : built (sectionMarksAt start parts) = tracksAt start parts := by
    rw [built, build_fst, h.sections_validate_eq, List.filterMap_map]
    calc (tracksAt start parts).filterMap _
        = (tracksAt start parts).filterMap some :=
          List.filterMap_congr fun t ht => by simp [(h.of_index_eq ht).1, Except.toOption]
      _ = tracksAt start parts := List.filterMap_some
  have hfits := fits_tracks_at (Int.le_refl start) parts
  have hsorted : (tracksAt start parts).Pairwise fun s t => decide (s.first ≤ t.first) = true := by
    refine hfits.before.imp_of_mem ?_
    intro s t hs _ hst
    have hforward := hfits.forward s hs
    simp only [Tracked.Before, Tracked.Forward] at hst hforward
    simp only [decide_eq_true_eq]
    omega
  rw [tracks, hbuilt, List.mergeSort_of_pairwise hsorted, drop_overlapping_eq_self hfits.before]

end Part

/-! ## The sections of parts -/

/-- The section that a block is read as when it begins on the line `start`. -/
def Block.section (b : Block) (start : Int) : Tracked :=
  { b.track start with
    content := closeLines b.content
    current := Digest.ofText (closeLines b.content) }

namespace Part

/-- The plain section from the line `cursor` up to the line `start`, with some content lines, if there is
room for one. -/
def plainFrom (cursor start : Int) (waiting : List Text) : List Section :=
  (plainOf cursor (start - 1)).map (·.append (closeLines waiting))

/-- The sections that parts are read as when the first of them is on the line `start`. The lines from
`cursor` on belong to no section yet, and their content waits until a block or the end of the file shows
where it belongs. -/
def sectionsFrom (cursor start : Int) (waiting : List Text) : List Part → List Section
  | [] => plainFrom cursor start waiting
  | .line text :: parts => sectionsFrom cursor (start + 1) (waiting ++ [text]) parts
  | .property _ _ :: parts => sectionsFrom cursor (start + 1) waiting parts
  | .block b :: parts =>
    plainFrom cursor start waiting ++
      .tracked (b.section start) :: sectionsFrom (start + b.size) (start + b.size) [] parts

end Part

namespace Assembly

variable {commentPrefix : Text}

/-- The pass over the content lines at a section that takes just the first of them. -/
theorem distribute_append {s : Section} {rest : List Section} {own later : List Numbered}
    (hown : ∀ a ∈ own, a.1 ≤ s.last) (hlater : ∀ a ∈ later, s.last < a.1) :
    distribute (own ++ later) (s :: rest) =
      (s.append (contentIn s own)).finalize :: distribute later rest := by
  have htake : (own ++ later).takeWhile (fun a => a.1 ≤ s.last) = own := by
    rw [List.takeWhile_append_of_pos (by simpa using hown)]
    cases later with
    | nil => simp
    | cons a later =>
        have := hlater a List.mem_cons_self
        rw [List.takeWhile_cons_of_neg (by simpa using this), List.append_nil]
  have hdrop : (own ++ later).dropWhile (fun a => a.1 ≤ s.last) = later := by
    rw [List.dropWhile_append_of_pos (by simpa using hown)]
    cases later with
    | nil => rfl
    | cons a later =>
        have := hlater a List.mem_cons_self
        rw [List.dropWhile_cons_of_neg (by simpa using this)]
  rw [distribute, htake, hdrop]

/-- A section that takes all of some content lines has them as its content. -/
theorem content_in_eq_close_lines {s : Section} {own : List Numbered}
    (hown : ∀ a ∈ own, s.first ≤ a.1 ∧ a.1 ≤ s.last) :
    contentIn s own = closeLines (own.map (·.2)) := by
  rw [content_in_eq_all hown, closeLines, List.flatMap_map]

/-- The plain section before a place, if there is room for one, takes the content lines there. -/
theorem distribute_plain_of {cursor next : Int} {rest : List Section} {own later : List Numbered}
    (hown : ∀ a ∈ own, cursor ≤ a.1 ∧ a.1 < next) (hlater : ∀ a ∈ later, next ≤ a.1) :
    distribute (own ++ later) (plainOf cursor (next - 1) ++ rest) =
      Part.plainFrom cursor next (own.map (·.2)) ++ distribute later rest := by
  unfold Part.plainFrom plainOf
  split
  · have hwithin : ∀ a ∈ own, (Section.plain ⟨cursor, next - 1, []⟩).first ≤ a.1 ∧
        a.1 ≤ (Section.plain ⟨cursor, next - 1, []⟩).last := by
      intro a ha
      have := hown a ha
      simp only [Section.first, Section.last]
      omega
    have hbeyond : ∀ a ∈ later, (Section.plain ⟨cursor, next - 1, []⟩).last < a.1 := by
      intro a ha
      have := hlater a ha
      simp only [Section.last]
      omega
    rw [List.singleton_append, distribute_append (fun a ha => (hwithin a ha).2) hbeyond,
      content_in_eq_close_lines hwithin]
    rfl
  · -- There is no room before the next section, so no line waits either.
    have hnil : own = [] := by
      refine List.eq_nil_iff_forall_not_mem.2 fun a ha => ?_
      have := hown a ha
      omega
    subst hnil
    rfl

/-- The section of a block takes the content lines of the block. -/
theorem distribute_block {b : Block} {start : Int} {rest : List Section} {after : List Numbered}
    (hafter : ∀ a ∈ after, start + b.size ≤ a.1) :
    distribute (number (start + b.headSize) b.content ++ after) (.tracked (b.track start) :: rest) =
      .tracked (b.section start) :: distribute after rest := by
  have hown : ∀ a ∈ number (start + b.headSize) b.content,
      (Section.tracked (b.track start)).first ≤ a.1 ∧
        a.1 ≤ (Section.tracked (b.track start)).last := by
    intro a ha
    have := mem_number ha
    simp only [Section.first, Section.last, Block.track, Block.size]
    omega
  have hbeyond : ∀ a ∈ after, (Section.tracked (b.track start)).last < a.1 := by
    intro a ha
    have := hafter a ha
    simp only [Section.last, Block.track]
    omega
  rw [distribute_append (fun a ha => (hown a ha).2) hbeyond, content_in_eq_close_lines hown,
    map_snd_number]
  rfl

/-- The content lines of readable parts are given out to the sections of these parts. Before them come
content lines that still wait for their section. -/
theorem distribute_parts {parts : List Part} (h : Part.Readable commentPrefix parts)
    {cursor start : Int} (hcursor : cursor ≤ start) {pending : List Numbered}
    (hpending : ∀ a ∈ pending, cursor ≤ a.1 ∧ a.1 < start) :
    distribute (pending ++ contentFrom commentPrefix start (Part.linesOf commentPrefix parts))
        (layOut (start + Part.total parts - 1) cursor (Part.tracksAt start parts)) =
      Part.sectionsFrom cursor start (pending.map (·.2)) parts := by
  -- Lines before a block are not given out one by one, so the lines that wait vary in the induction.
  induction parts generalizing cursor start pending with
  | nil =>
      have hplain : distribute (pending ++ []) (plainOf cursor (start - 1) ++ []) =
          Part.plainFrom cursor start (pending.map (·.2)) ++ [] :=
        distribute_plain_of hpending (List.forall_mem_nil _)
      simpa [layOut, Part.tracksAt, Part.linesOf, contentFrom, number, Part.sectionsFrom] using hplain
  | cons p parts ih =>
      have hlast : start + Part.total (p :: parts) - 1 = start + p.size + Part.total parts - 1 := by
        rw [Part.total_cons]
        omega
      rw [hlast, h.content_from_cons, Part.tracksAt]
      cases p with
      | line text =>
          have hwait : ∀ a ∈ pending ++ [(start, text)], cursor ≤ a.1 ∧ a.1 < start + 1 := by
            intro a ha
            rcases List.mem_append.1 ha with ha | ha
            · have := hpending a ha
              omega
            · obtain rfl := List.mem_singleton.1 ha
              omega
          have hrest := ih h.tail (by omega) hwait
          rw [List.map_append] at hrest
          simpa [Part.content, Part.track?, Part.size, Part.sectionsFrom, List.append_assoc] using hrest
      | property kind argument =>
          have hwait : ∀ a ∈ pending, cursor ≤ a.1 ∧ a.1 < start + 1 := by
            intro a ha
            have := hpending a ha
            omega
          have hrest := ih h.tail (by omega) hwait
          simpa [Part.content, Part.track?, Part.size, Part.sectionsFrom] using hrest
      | block b =>
          have hafter : ∀ a ∈ contentFrom commentPrefix (start + b.size)
              (Part.linesOf commentPrefix parts), start + b.size ≤ a.1 := fun a ha =>
            (mem_content_from ha).1
          have hlater : ∀ a ∈ number (start + b.headSize) b.content ++
              contentFrom commentPrefix (start + b.size) (Part.linesOf commentPrefix parts),
              start ≤ a.1 := by
            intro a ha
            rcases List.mem_append.1 ha with ha | ha
            · have := mem_number ha
              omega
            · have := hafter a ha
              omega
          have hfirst : (b.track start).first = start := rfl
          have hnext : (b.track start).last + 1 = start + b.size := by
            simp only [Block.track]
            omega
          have hrest := ih h.tail (Int.le_refl (start + b.size)) (List.forall_mem_nil _)
          rw [List.nil_append] at hrest
          simp only [Part.content, Part.track?, Part.size, Option.toList_some, List.singleton_append,
            layOut, hfirst, hnext]
          rw [distribute_plain_of hpending hlater, distribute_block hafter, hrest]
          rfl

end Assembly

/-! ## From sections back to parts -/

/-- The block of a tracked section. -/
def Tracked.block (t : Tracked) : Block := ⟨t.name, t.accepted, t.source, t.content.lines.1⟩

/-- The parts of a section: the lines of a plain one, and a tracked one as a whole. -/
def Section.parts : Section → List Part
  | .plain s => s.content.lines.1.map .line
  | .tracked t => [.block t.block]

namespace Part

variable {commentPrefix : Text} {parts : List Part}

/-- Parts are as long as their lines together. -/
theorem length_lines_of (commentPrefix : Text) (parts : List Part) :
    (linesOf commentPrefix parts).length = total parts := by
  induction parts with
  | nil => rfl
  | cons p parts ih =>
      rw [linesOf, List.flatMap_cons, List.length_append, length_lines, ← linesOf, ih, total_cons]

/-- A file made of readable parts is read as their sections. -/
theorem Readable.sections_of_lines (h : Readable commentPrefix parts) (path : Option Path)
    (finalNewline : Bool) :
    (Document.ofLines commentPrefix path finalNewline (linesOf commentPrefix parts)).1.sections =
      sectionsFrom 1 1 [] parts := by
  have hread := distribute_parts h (Int.le_refl 1) (List.forall_mem_nil _)
  have hlast : 1 + (total parts : Int) - 1 = total parts := by omega
  rw [hlast] at hread
  have hmarks : Assembly.sectionMarks commentPrefix (linesOf commentPrefix parts) =
      sectionMarksAt 1 parts := h.section_marks 1
  rw [Document.sections_eq_distribute, hmarks, h.tracks_section_marks_at, length_lines_of]
  exact hread

/-- The parts of a plain section, if there is room for one, are its lines. -/
theorem parts_plain_from {cursor start : Int} {waiting : List Text}
    (hroom : cursor + waiting.length ≤ start) (hline : ∀ l ∈ waiting, IsLine l) :
    (plainFrom cursor start waiting).flatMap Section.parts = waiting.map .line := by
  unfold plainFrom plainOf
  split
  · simp [Section.append, Section.parts, lines_close_lines hline]
  · have hnil : waiting = [] := List.length_eq_zero_iff.1 (by omega)
    subst hnil
    rfl

/-- The sections of readable parts have these parts but the properties. -/
theorem Readable.parts_sections_from (h : Readable commentPrefix parts) {cursor start : Int}
    {waiting : List Text} (hroom : cursor + waiting.length ≤ start)
    (hline : ∀ l ∈ waiting, IsLine l) :
    (sectionsFrom cursor start waiting parts).flatMap Section.parts =
      waiting.map .line ++ parts.filter isBody := by
  induction parts generalizing cursor start waiting with
  | nil => simpa [sectionsFrom] using parts_plain_from hroom hline
  | cons p parts ih =>
      cases p with
      | line text =>
          have htext : IsLine text := by
            cases h.head with
            | line htext hcontent => exact htext
          have hlines : ∀ l ∈ waiting ++ [text], IsLine l :=
            List.forall_mem_append.2 ⟨hline, List.forall_mem_singleton.2 htext⟩
          have hroom : cursor + (waiting ++ [text]).length ≤ start + 1 := by
            rw [List.length_append, List.length_singleton]
            omega
          rw [sectionsFrom, ih h.tail hroom hlines, List.filter_cons_of_pos (by rfl), List.map_append,
            List.append_assoc]
          rfl
      | property kind argument => exact ih h.tail (by omega) hline
      | block b =>
          have hb : b.Valid commentPrefix := by
            cases h.head with
            | block hblock => exact hblock
          have hblock : (Section.tracked (b.section start)).parts = [.block b] := by
            simp [Section.parts, Tracked.block, Block.section, Block.track,
              lines_close_lines hb.content_line]
          rw [sectionsFrom, List.flatMap_append, List.flatMap_cons, parts_plain_from hroom hline, hblock,
            ih h.tail (by simp) (List.forall_mem_nil _), List.filter_cons_of_pos (by rfl)]
          rfl

/-- The sections of a file made of readable parts are read back as these parts but the properties. -/
theorem Readable.parts_of_lines (h : Readable commentPrefix parts) (path : Option Path)
    (finalNewline : Bool) :
    (Document.ofLines commentPrefix path finalNewline (linesOf commentPrefix parts)).1.sections.flatMap
      Section.parts = parts.filter isBody := by
  rw [h.sections_of_lines]
  exact h.parts_sections_from (by simp) (List.forall_mem_nil _)

end Part

/-! ## Written parts -/

namespace Part

variable {commentPrefix : Text} {parts : List Part}

/-- The text of a file made of some parts. -/
def write (commentPrefix : Text) (finalNewline : Bool) (parts : List Part) : Text :=
  if finalNewline then closeLines (linesOf commentPrefix parts)
  else Document.openLastLine (closeLines (linesOf commentPrefix parts))

/-- Only an empty line has an empty last line. -/
theorem getLast_lines {p : Part} (h : (p.lines commentPrefix).getLast?.getD [] = []) :
    p = .line [] := by
  cases p with
  | line text => simpa [lines] using h
  | property kind argument => exact absurd h (by simp [lines, Marker.row_ne_nil])
  | block b => exact absurd h (by simp [lines, Block.lines, Marker.row_ne_nil])

/-- Without its line feed an empty last line leaves no trace. -/
theorem write_concat_nil (commentPrefix : Text) (parts : List Part) :
    write commentPrefix false (parts ++ [.line []]) = write commentPrefix true parts := by
  have hlines : linesOf commentPrefix (parts ++ [.line []]) = linesOf commentPrefix parts ++ [[]] := by
    rw [lines_of_append]
    rfl
  rw [write, write, hlines, if_neg Bool.false_ne_true, if_pos rfl, open_last_line_close_lines,
    List.append_nil]

/-- Parts with a last line that is not empty are read back as they are without its line feed. -/
theorem Readable.lines_write_concat (h : Readable commentPrefix (parts ++ [p]))
    (hp : (p.lines commentPrefix).getLast?.getD [] ≠ []) :
    (write commentPrefix false (parts ++ [p])).lines =
      (linesOf commentPrefix (parts ++ [p]), false) := by
  have hne : p.lines commentPrefix ≠ [] := by
    cases p <;> simp [lines, Block.lines]
  have hlast : (linesOf commentPrefix (parts ++ [p])).getLast?.getD [] ≠ [] := by
    rw [lines_of_append, linesOf, linesOf, List.flatMap_singleton,
      List.getLast?_append_of_ne_nil _ hne]
    exact hp
  rw [write, if_neg Bool.false_ne_true, lines_open_last_line h.is_line, if_neg hlast]

/-- The lines of written parts are those of these parts, except for an empty last line that was left
open. The parts that are left are written as the same text. -/
theorem Readable.lines_write (h : Readable commentPrefix parts) (finalNewline : Bool) :
    ∃ kept closed, (write commentPrefix finalNewline parts).lines =
        (linesOf commentPrefix kept, closed) ∧ Readable commentPrefix kept ∧
      write commentPrefix closed kept = write commentPrefix finalNewline parts ∧
      (kept = parts ∨ parts = kept ++ [.line []]) := by
  cases finalNewline with
  | true => exact ⟨parts, true, lines_close_lines h.is_line, h, rfl, .inl rfl⟩
  | false =>
      rcases List.eq_nil_or_concat parts with rfl | ⟨kept, p, rfl⟩
      · exact ⟨[], true, rfl, h, rfl, .inl rfl⟩
      · rw [List.concat_eq_append] at h ⊢
        by_cases hp : (p.lines commentPrefix).getLast?.getD [] = []
        · obtain rfl := getLast_lines hp
          have hwrite := write_concat_nil commentPrefix kept
          refine ⟨kept, true, ?_, h.of_append, hwrite.symm, .inr rfl⟩
          rw [hwrite]
          exact lines_close_lines h.of_append.is_line
        · exact ⟨kept ++ [p], false, h.lines_write_concat hp, h, rfl, .inl rfl⟩

end Part

end TrackedSections
