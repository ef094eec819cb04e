import TrackedSections.Proofs.Merge.Ranges

/-!
# No longer tracking a section

Without tracking for a section, its content is plain and its markers are gone. Read `delete_uncovers_content`
first: what is written is what was written before without these markers, unless a hashbang comes to light at the
beginning, which is then written before the properties of the file.
-/

namespace TrackedSections

open Text Assembly

namespace Document

variable {commentPrefix name : Text}

/-! ## The section that is no longer tracked -/

/-- The first section of a name becomes plain where it stands. -/
theorem untrack_of_find {sections : List Section} {s : Tracked}
    (h : (trackedOf sections).find? (·.name = name) = some s) : ∃ before after,
      sections = before ++ .tracked s :: after ∧ s.name = name ∧
      untrack? name sections = some (before ++ .plain ⟨s.first, s.last, s.content⟩ :: after) := by
  induction sections with
  | nil => cases h
  | cons t rest ih =>
      cases t with
      | plain t =>
          obtain ⟨before, after, rfl, hname, huntrack⟩ := ih h
          exact ⟨.plain t :: before, after, rfl, hname, by rw [untrack?, huntrack]; rfl⟩
      | tracked t =>
          change (t :: trackedOf rest).find? _ = _ at h
          by_cases hname : t.name = name
          · rw [List.find?_cons_of_pos (by simpa using hname)] at h
            obtain rfl := Option.some.inj h
            exact ⟨[], rest, rfl, hname, by rw [untrack?, if_pos hname]; rfl⟩
          · rw [List.find?_cons_of_neg (by simpa using hname)] at h
            obtain ⟨before, after, rfl, hsame, huntrack⟩ := ih h
            exact ⟨.tracked t :: before, after, rfl, hsame, by
              rw [untrack?, if_neg hname, huntrack]; rfl⟩

/-- Without a section of a name, nothing is no longer tracked. -/
theorem untrack_eq_none {sections : List Section} (h : name ∉ namesOf sections) :
    untrack? name sections = none := by
  induction sections with
  | nil => rfl
  | cons t rest ih =>
      cases t with
      | plain t => rw [untrack?, ih h, Option.map_none]
      | tracked t =>
          have hname : name ∉ t.name :: namesOf rest := h
          rw [List.mem_cons, not_or] at hname
          rw [untrack?, if_neg (Ne.symm hname.1), ih hname.2, Option.map_none]

/-- Of sections with different names, those that stay tracked are all with another name. -/
theorem tracked_of_untracked {before after : List Section} {s : Tracked} (plain : Plain)
    (hname : s.name = name) (hnodup : (namesOf (before ++ .tracked s :: after)).Nodup) :
    trackedOf (before ++ .plain plain :: after) =
      (trackedOf (before ++ .tracked s :: after)).filter (·.name ≠ name) := by
  have hsplit : trackedOf (before ++ .tracked s :: after) = trackedOf before ++ s :: trackedOf after :=
    List.filterMap_append
  have hsplit' : trackedOf (before ++ .plain plain :: after) = trackedOf before ++ trackedOf after :=
    List.filterMap_append
  have hnames : namesOf (before ++ .tracked s :: after) = namesOf before ++ s.name :: namesOf after :=
    (congrArg (List.map fun t : Tracked => t.name) hsplit).trans List.map_append
  rw [hnames] at hnodup
  obtain ⟨hfresh, -⟩ := List.nodup_cons.1 (List.nodup_middle.1 hnodup)
  have hother : ∀ t ∈ trackedOf before ++ trackedOf after, t.name ≠ name := by
    intro t ht hsame
    refine hfresh (hname.trans hsame.symm ▸ ?_)
    rw [List.mem_append] at ht ⊢
    exact ht.imp name_mem_names_of name_mem_names_of
  rw [List.forall_mem_append] at hother
  rw [hsplit, hsplit', List.filter_append, List.filter_cons_of_neg (by simpa using hname),
    List.filter_eq_self.2 (by simpa using hother.1), List.filter_eq_self.2 (by simpa using hother.2)]

/-! ## The lines of the file -/

/-- The properties of a legible document are written on the lines of their parts. -/
theorem Legible.lines_properties {d : Document} (h : d.Legible) :
    d.properties.lines.1 = Part.linesOf d.commentPrefix d.propertyParts := by
  have hline : ∀ l ∈ Part.linesOf d.commentPrefix d.propertyParts, IsLine l := by
    intro l hl
    obtain ⟨p, hp, hl⟩ := List.mem_flatMap.1 hl
    exact (h.property_valid p hp).is_line l hl
  rw [d.properties_eq, lines_close_lines hline]

/-- Legible documents with the same parts after a block have the same lines after it in their files, unless
only the second one loses a line. -/
theorem lines_write_after {d e : Document} (hd : d.Legible) (he : e.Legible)
    (hcomment : e.commentPrefix = d.commentPrefix) (hfinal : e.finalNewline = d.finalNewline)
    (hloses : e.LosesLine → d.LosesLine) {before before' after : List Part} {b : Block}
    (hparts : d.parts = before ++ .block b :: after) (hparts' : e.parts = before' ++ after) : ∃ rows,
      d.write.lines.1 = Part.linesOf d.commentPrefix before ++ (b.lines d.commentPrefix ++ rows) ∧
      e.write.lines.1 = Part.linesOf d.commentPrefix before' ++ rows := by
  have hlines : Part.linesOf d.commentPrefix d.parts = Part.linesOf d.commentPrefix before ++
      (b.lines d.commentPrefix ++ Part.linesOf d.commentPrefix after) := by
    rw [hparts, Part.lines_of_append, Part.lines_of_cons]
    rfl
  have hlines' : Part.linesOf e.commentPrefix e.parts =
      Part.linesOf d.commentPrefix before' ++ Part.linesOf d.commentPrefix after := by
    rw [hparts', hcomment, Part.lines_of_append]
  by_cases hlost : d.LosesLine
  · -- The line that is lost is not the end marker of the block, so that it stands after it in both files.
    have hlast := hlost.2
    rw [hd.lines_closed_text, Part.get_last_lines_of, hparts] at hlast
    obtain ⟨front, rfl⟩ : ∃ front, after = front ++ [.line []] := by
      rcases List.eq_nil_or_concat' after with rfl | ⟨front, p, rfl⟩
      · rw [List.getLast?_concat] at hlast
        cases hlast
      · rw [← List.cons_append, ← List.append_assoc, List.getLast?_concat] at hlast
        exact ⟨front, by rw [Option.some.inj hlast]⟩
    have hfront : Part.linesOf d.commentPrefix (front ++ [.line []]) =
        Part.linesOf d.commentPrefix front ++ [[]] := Part.lines_of_append _ _ _
    rw [hfront] at hlines hlines'
    have hlost' : e.LosesLine := by
      rw [LosesLine, he.lines_closed_text, hlines', ← List.append_assoc, List.getLast?_concat]
      exact ⟨hfinal.trans hlost.1, rfl⟩
    refine ⟨Part.linesOf d.commentPrefix front, ?_, ?_⟩
    · rw [hd.lines_write.1 hlost, hlines, ← List.append_assoc, ← List.append_assoc, List.dropLast_concat,
        List.append_assoc]
    · rw [he.lines_write.1 hlost', hlines', ← List.append_assoc, List.dropLast_concat]
  · exact ⟨_, (hd.lines_write.2 hlost).trans hlines,
      (he.lines_write.2 fun hlost' => hlost (hloses hlost')).trans hlines'⟩

/-- The parts of some sections that follow others are the last ones of a document. -/
theorem exists_parts_append {before : List Section} (hbefore : before ≠ [])
    (hclosed : ∀ s ∈ before, s.Closed) (d : Document) : ∃ front, ∀ after markers,
      ({ d with sections := before ++ after, markers } : Document).parts =
        front ++ after.flatMap Section.parts := by
  obtain ⟨first, rest, rfl⟩ := List.exists_cons_of_ne_nil hbefore
  have hhashbang (after : List Section) (markers : List Marker) :
      ({ d with sections := first :: rest ++ after, markers } : Document).hashbang? =
        ({ d with sections := first :: rest } : Document).hashbang? := by
    cases first <;> rfl
  have hbody (after : List Section) (markers : List Marker) :
      ({ d with sections := first :: rest ++ after, markers } : Document).body =
        ({ d with sections := first :: rest } : Document).body ++ after.flatMap Section.parts :=
    List.flatMap_append
  cases hline : ({ d with sections := first :: rest } : Document).hashbang? with
  | none =>
      refine ⟨d.propertyParts ++ ({ d with sections := first :: rest } : Document).body, ?_⟩
      intro after markers
      rw [parts, hhashbang, hline, hbody, List.append_assoc]
      rfl
  | some line =>
      obtain ⟨others, hfirst⟩ := body_of_hashbang hclosed hline
      refine ⟨.line line :: (d.propertyParts ++ others), ?_⟩
      intro after markers
      rw [parts, hhashbang, hline, hbody, hfirst]
      simp [propertyParts]

/-- A section that begins a document and of which the first line will be its hashbang without tracking. -/
def UncoversHashbang (d : Document) (s : Tracked) : Prop :=
  d.sections.head? = some (.tracked s) ∧ isHashbang s.content.firstLine = true

section Parts

variable {d e : Document} {before after : List Section} {s : Tracked} {markers : List Marker}

/-- A hashbang that comes to light stands before the properties. -/
theorem parts_of_uncovered (hsections : d.sections = before ++ .tracked s :: after)
    (he : e = { d with sections := before ++ .plain ⟨s.first, s.last, s.content⟩ :: after, markers })
    (hclosed : (Section.tracked s).Closed) (hnodup : d.names.Nodup) (huncovers : d.UncoversHashbang s) :
    ∃ line rest, s.content.lines.1 = line :: rest ∧
      d.parts = d.propertyParts ++ .block s.block :: after.flatMap Section.parts ∧
      e.parts = .line line :: (d.propertyParts ++ rest.map .line) ++ after.flatMap Section.parts := by
  obtain ⟨hfirst, hline⟩ := huncovers
  obtain rfl : before = [] := by
    cases before with
    | nil => rfl
    | cons first rest =>
        rw [hsections] at hfirst
        obtain rfl := Option.some.inj hfirst
        have hnames : (s.name :: namesOf (rest ++ .tracked s :: after)).Nodup := by
          rw [names, tracked, hsections] at hnodup
          exact hnodup
        refine absurd (name_mem_names_of ?_) (List.nodup_cons.1 hnames).1
        exact List.mem_filterMap.2 ⟨_, List.mem_append_right _ List.mem_cons_self, rfl⟩
  have hhashbang : e.hashbang? = some s.content.firstLine := by
    rw [he]
    exact if_pos hline
  have hhashbang' : d.hashbang? = none := by
    rw [hashbang?, hsections]
    rfl
  obtain ⟨ls, hls, hcontent⟩ := hclosed
  change s.content = closeLines ls at hcontent
  cases ls with
  | nil =>
      rw [hcontent] at hline
      exact absurd hline (by decide)
  | cons line rest =>
      have hlines : s.content.lines.1 = line :: rest := by rw [hcontent, lines_close_lines hls]
      refine ⟨line, rest, hlines, ?_, ?_⟩
      · rw [parts, hhashbang', body, hsections]
        rfl
      · have hbody : e.body = .line line :: (rest.map .line ++ after.flatMap Section.parts) := by
          rw [he, body, List.nil_append, List.flatMap_cons, Section.parts, hlines]
          rfl
        rw [parts, hhashbang, hbody, he]
        simp [propertyParts]

/-- Where no hashbang comes to light, content lines take the place of their block. -/
theorem parts_of_untracked (hsections : d.sections = before ++ .tracked s :: after)
    (he : e = { d with sections := before ++ .plain ⟨s.first, s.last, s.content⟩ :: after, markers })
    (hclosed : ∀ s ∈ d.sections, s.Closed) (hcovers : ¬ d.UncoversHashbang s) : ∃ front,
      d.parts = front ++ .block s.block :: after.flatMap Section.parts ∧
      e.parts = front ++ s.content.lines.1.map .line ++ after.flatMap Section.parts := by
  by_cases hbefore : before = []
  · subst hbefore
    have hhashbang : d.hashbang? = none := by
      rw [hashbang?, hsections]
      rfl
    have hhashbang' : e.hashbang? = none := by
      rw [he]
      exact if_neg fun hline => hcovers ⟨by rw [hsections]; rfl, hline⟩
    refine ⟨d.propertyParts, ?_, ?_⟩
    · rw [parts, hhashbang, body, hsections]
      rfl
    · rw [parts, hhashbang', body, he, List.append_assoc]
      rfl
  · rw [hsections, List.forall_mem_append] at hclosed
    obtain ⟨front, hfront⟩ := exists_parts_append hbefore hclosed.1 d
    refine ⟨front, ?_, ?_⟩
    · have hparts := hfront (.tracked s :: after) d.markers
      rw [← hsections] at hparts
      exact hparts
    · rw [he, hfront, List.append_assoc]
      rfl

/-- A legible document without tracking for a section is written on the lines that it was written on, without
the markers of that section. A hashbang that comes to light stands before the properties. -/
theorem lines_of_untracked (hsections : d.sections = before ++ .tracked s :: after)
    (he : e = { d with sections := before ++ .plain ⟨s.first, s.last, s.content⟩ :: after, markers })
    (hd : d.Legible) (hlegible : e.Legible) (hloses : e.LosesLine → d.LosesLine) : ∃ front rows,
      d.write.lines.1 = front ++ (s.block.head d.commentPrefix ++ (s.content.lines.1 ++
        Marker.row d.commentPrefix .stop s.name none :: rows)) ∧
      (¬ d.UncoversHashbang s → e.write.lines.1 = front ++ (s.content.lines.1 ++ rows)) ∧
      (d.UncoversHashbang s → front = d.properties.lines.1 ∧ ∃ line rest,
        s.content.lines.1 = line :: rest ∧ e.write.lines.1 = line :: (front ++ (rest ++ rows))) := by
  have hclosed : ∀ s ∈ d.sections, s.Closed := fun s hs => (hd.section_legible s hs).closed
  have hcomment : e.commentPrefix = d.commentPrefix := by rw [he]
  have hfinal : e.finalNewline = d.finalNewline := by rw [he]
  by_cases huncovers : d.UncoversHashbang s
  · obtain ⟨line, rest, hcontent, hparts, hparts'⟩ :=
      parts_of_uncovered hsections he (hclosed _ (by simp [hsections])) hd.nodup huncovers
    obtain ⟨rows, hwrite, hwrite'⟩ := lines_write_after hd hlegible hcomment hfinal hloses hparts hparts'
    rw [← hd.lines_properties] at hwrite
    rw [Part.lines_of_cons, Part.lines_of_append, Part.lines_of_map_line, ← hd.lines_properties] at hwrite'
    refine ⟨d.properties.lines.1, rows, ?_, fun h => absurd huncovers h,
      fun _ => ⟨rfl, line, rest, hcontent, ?_⟩⟩
    · simpa [Block.lines, Tracked.block] using hwrite
    · simpa [Part.lines] using hwrite'
  · obtain ⟨front, hparts, hparts'⟩ := parts_of_untracked hsections he hclosed huncovers
    obtain ⟨rows, hwrite, hwrite'⟩ := lines_write_after hd hlegible hcomment hfinal hloses hparts hparts'
    rw [Part.lines_of_append, Part.lines_of_map_line] at hwrite'
    refine ⟨Part.linesOf d.commentPrefix front, rows, ?_, fun _ => ?_, fun h => absurd h huncovers⟩
    · simpa [Block.lines, Tracked.block] using hwrite
    · rw [hwrite', List.append_assoc]

end Parts

/-- Where a document that was read has no section of a name, nothing is deleted. Where it has one, the markers
of that section are no longer known, and from the text that is then written the other sections are read as they
were. That text has the lines that it had without the markers, unless only now its last line is empty and left
open, and in the same order, unless a hashbang comes to light: this stands before the properties. -/
theorem delete_uncovers_content (commentPrefix : Text) (path : Option Path) (t name : Text) :
    let d := (ofText commentPrefix path t).1
    (name ∉ d.names → d.delete? name = none) ∧
    (name ∈ d.names → ∃ s e, d.get? name = some s ∧ d.delete? name = some e ∧
      e.markers = d.markers.filter (·.scope ≠ name) ∧
      (∀ path', name ∉ (ofText commentPrefix path' e.write).1.names ∧
        (ofText commentPrefix path' e.write).1.tracked.map (·.unplaced) =
          (d.tracked.filter (·.name ≠ name)).map (·.unplaced)) ∧
      ((e.LosesLine → d.LosesLine) → ∃ before after,
        d.write.lines.1 = before ++ (s.block.head commentPrefix ++ (s.content.lines.1 ++
          Marker.row commentPrefix .stop name none :: after)) ∧
        (¬ d.UncoversHashbang s → e.write.lines.1 = before ++ (s.content.lines.1 ++ after)) ∧
        (d.UncoversHashbang s → before = d.properties.lines.1 ∧ ∃ line rest,
          s.content.lines.1 = line :: rest ∧ e.write.lines.1 = line :: (before ++ (rest ++ after))))) := by
  intro d
  have hd : d.LegibleWith commentPrefix := legible_with_of_text commentPrefix path t
  clear_value d
  obtain ⟨hlegible, rfl⟩ := hd
  refine ⟨fun hname => by rw [delete?, untrack_eq_none hname, Option.map_none], fun hname => ?_⟩
  obtain ⟨s, hs⟩ := exists_get_of_mem_names hname
  obtain ⟨before, after, hsections, rfl, huntrack⟩ := untrack_of_find hs
  generalize he : ({ d with
    sections := before ++ .plain ⟨s.first, s.last, s.content⟩ :: after
    markers := d.markers.filter (·.scope ≠ s.name) } : Document) = e
  have hdelete : d.delete? s.name = some e := by rw [delete?, huntrack, ← he, Option.map_some]
  obtain ⟨hlegible', hcomment⟩ := LegibleWith.delete ⟨hlegible, rfl⟩ hdelete
  have hothers : e.tracked = d.tracked.filter (·.name ≠ s.name) := by
    rw [← he, tracked, tracked, hsections]
    refine tracked_of_untracked _ rfl ?_
    rw [← hsections]
    exact hlegible.nodup
  refine ⟨s, e, hs, hdelete, he ▸ rfl, fun path' => ?_,
    lines_of_untracked hsections he.symm hlegible hlegible'⟩
  have hreread := hlegible'.unplaced_reread path'
  rw [hcomment, hothers] at hreread
  refine ⟨fun hmem => ?_, hreread⟩
  obtain ⟨t, ht, hname⟩ := List.mem_map.1 hmem
  obtain ⟨other, hother, hunplaced⟩ := List.mem_map.1 (hreread ▸ List.mem_map_of_mem ht)
  have hne : other.name ≠ s.name := by simpa using (List.mem_filter.1 hother).2
  exact hne ((congrArg (·.name) hunplaced).trans hname)

/-- A line and a section below it. -/
def headedSection : Text := "own\n#... s begin\n#... s hash 0\nx\n#... s end\n".toList

/-- The line above a section stays above its content without the markers. -/
theorem headed_section_deleted : ∃ s e before after,
    (ofText ['#'] none headedSection).1.get? ['s'] = some s ∧
    (ofText ['#'] none headedSection).1.delete? ['s'] = some e ∧
    (ofText ['#'] none headedSection).1.write.lines.1 = before ++ (s.block.head ['#'] ++
      (s.content.lines.1 ++ Marker.row ['#'] .stop ['s'] none :: after)) ∧
    e.write.lines.1 = before ++ (s.content.lines.1 ++ after) := by
  have hread : (ofText ['#'] none headedSection).1 = laidOut ['#'] none headedSection :=
    (laid_out_eq _ _ _).symm
  have hname : ['s'] ∈ (ofText ['#'] none headedSection).1.names := by
    rw [hread]
    decide +kernel
  have hplain : (ofText ['#'] none headedSection).1.sections.head?.bind (·.tracked?) = none := by
    rw [hread]
    decide +kernel
  have hclosed : (ofText ['#'] none headedSection).1.finalNewline = true := by decide +kernel
  obtain ⟨s, e, hs, he, -, -, hlines⟩ := (delete_uncovers_content ['#'] none headedSection ['s']).2 hname
  have hkeeps : ¬ e.LosesLine := by
    obtain ⟨sections, -, rfl⟩ := Option.map_eq_some_iff.1 he
    exact fun hloses => absurd (hclosed.symm.trans hloses.1) nofun
  have hcovers : ¬ (ofText ['#'] none headedSection).1.UncoversHashbang s := by
    intro huncovers
    rw [huncovers.1] at hplain
    cases hplain
  obtain ⟨before, after, hwrite, hwrite', -⟩ := hlines fun hloses => absurd hloses hkeeps
  exact ⟨s, e, before, after, hs, he, hwrite, hwrite' hcovers⟩

/-- A section whose content is a hashbang and that has a property of the file in it. -/
def hiddenHashbang : Text :=
  "#... s begin\n#... all target t\n#... s hash 0\n#!/bin/sh\n#... s end\n".toList

/-- The property stands below the content of the section without its markers, and above it with them. -/
theorem hidden_hashbang_rises :
    let d := (ofText ['#'] none hiddenHashbang).1
    d.write.lines.1 = ["#... all target t".toList, "#... s begin".toList, "#... s hash 0".toList,
      "#!/bin/sh".toList, "#... s end".toList] ∧
    (d.delete? ['s']).map (·.write.lines.1) = some ["#!/bin/sh".toList, "#... all target t".toList] ∧
    (d.delete? ['s']).map (·.write.lines.1) ≠ some (d.write.lines.1.filter fun l =>
      l ∉ ["#... s begin".toList, "#... s hash 0".toList, "#... s end".toList]) := by
  decide +kernel

end Document

end TrackedSections
