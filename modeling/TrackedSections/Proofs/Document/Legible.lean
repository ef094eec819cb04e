import TrackedSections.Proofs.Document.Partition
import TrackedSections.Proofs.Document.Reread

/-!
# Documents that can be read back

`Document.parts` are the parts that a document is written as, and `closed_text_eq` says that its text
is theirs. A document is `Legible` when these parts can be read back. Read `legible_of_text` first:
every document that was read is legible. `reread_body` then says what a legible document is read as
after it was written.
-/

namespace TrackedSections

open Text Assembly

namespace Section

/-- The content of a section is a sequence of closed lines. -/
def Closed (s : Section) : Prop := ∃ ls, (∀ l ∈ ls, IsLine l) ∧ s.content = closeLines ls

/-- Closed lines are written as the text that they were cut from. -/
theorem Closed.close_lines_content {s : Section} (h : s.Closed) :
    closeLines s.content.lines.1 = s.content := by
  obtain ⟨ls, hls, hcontent⟩ := h
  rw [hcontent, lines_close_lines hls]

/-- A section with closed lines is written as its parts. -/
theorem Closed.write_eq {s : Section} (h : s.Closed) (commentPrefix : Text) :
    s.write commentPrefix = closeLines (Part.linesOf commentPrefix s.parts) := by
  obtain ⟨ls, hls, hcontent⟩ := h
  cases s with
  | plain s =>
      have hlines : s.content.lines.1 = ls := by
        rw [show s.content = closeLines ls from hcontent, lines_close_lines hls]
      rw [parts, hlines, Part.lines_of_map_line]
      exact hcontent
  | tracked s =>
      have hlines : closeLines s.content.lines.1 = s.content := by
        rw [show s.content = closeLines ls from hcontent, lines_close_lines hls]
      rw [Section.write, Tracked.write]
      cases hsource : s.source <;>
        simp [parts, Part.linesOf, Part.lines, Block.lines, Block.head, Tracked.block, hsource,
          Marker.write_eq_close_line, hlines]

/-- The blocks of a section are those of its tracked section, if it is one. -/
theorem blocks_parts (s : Section) : Part.blocks s.parts = (s.tracked?.map (·.block)).toList := by
  cases s with
  | plain s => simp [parts, Part.blocks, List.filterMap_map, Function.comp_def, Part.block?, tracked?]
  | tracked s => rfl

end Section

namespace Document

variable (d : Document)

/-- The properties of a document as parts. -/
def propertyParts : List Part :=
  (d.target.map (Part.property .target)).toList ++
    (d.permissionsArgument.map (Part.property .permissions)).toList

/-- The parts of the sections of a document. -/
def body : List Part := d.sections.flatMap Section.parts

/-- The parts that a document is written as: its properties come first or right after a hashbang. -/
def parts : List Part :=
  match d.hashbang?, d.body with
  | some _, first :: rest => first :: (d.propertyParts ++ rest)
  | _, body => d.propertyParts ++ body

variable {d}

/-- A hashbang is the first line of a plain section at the beginning. -/
theorem hashbang_eq_some (hclosed : ∀ s ∈ d.sections, s.Closed) {line : Text}
    (h : d.hashbang? = some line) : isHashbang line = true ∧ ∃ s rest ls,
      d.sections = .plain s :: rest ∧ s.content = closeLines (line :: ls) ∧
      s.content.lines.1 = line :: ls := by
  unfold hashbang? at h
  split at h
  · next s rest hsections =>
      obtain ⟨ls, hls, hcontent⟩ := hclosed (.plain s) (by simp [hsections])
      change s.content = closeLines ls at hcontent
      simp only [Option.ite_none_right_eq_some, Option.some.injEq] at h
      obtain ⟨hhashbang, hline⟩ := h
      cases ls with
      | nil =>
          rw [hcontent] at hhashbang
          exact absurd hhashbang (by decide)
      | cons l ls =>
          rw [hcontent, first_line_close_lines (hls l List.mem_cons_self)] at hhashbang hline
          subst hline
          exact ⟨hhashbang, s, rest, ls, hsections, hcontent, by rw [hcontent, lines_close_lines hls]⟩
  · cases h

/-- A document with a hashbang begins with its line. -/
theorem body_of_hashbang (hclosed : ∀ s ∈ d.sections, s.Closed) {line : Text}
    (h : d.hashbang? = some line) : ∃ rest, d.body = .line line :: rest := by
  obtain ⟨-, s, rest, ls, hsections, -, hlines⟩ := hashbang_eq_some hclosed h
  refine ⟨ls.map .line ++ rest.flatMap Section.parts, ?_⟩
  rw [body, hsections, List.flatMap_cons, Section.parts, hlines]
  rfl

/-- The properties are written as their parts. -/
theorem properties_eq (d : Document) :
    d.properties = closeLines (Part.linesOf d.commentPrefix d.propertyParts) := by
  rw [properties, propertyParts]
  cases d.target <;> cases d.permissionsArgument <;>
    simp [Part.linesOf, Part.lines, Marker.write_eq_close_line]

/-- Sections with closed lines are written as their parts. -/
theorem write_sections_eq (commentPrefix : Text) {sections : List Section}
    (hclosed : ∀ s ∈ sections, s.Closed) : sections.flatMap (·.write commentPrefix) =
      closeLines (Part.linesOf commentPrefix (sections.flatMap Section.parts)) := by
  induction sections with
  | nil => rfl
  | cons s rest ih =>
      obtain ⟨hs, hrest⟩ := List.forall_mem_cons.1 hclosed
      rw [List.flatMap_cons, List.flatMap_cons, Part.lines_of_append, close_lines_append,
        hs.write_eq, ih hrest]

/-- A document with closed lines is written as its parts. -/
theorem closed_text_eq (hclosed : ∀ s ∈ d.sections, s.Closed) :
    d.closedText = closeLines (Part.linesOf d.commentPrefix d.parts) := by
  cases hhashbang : d.hashbang? with
  | none =>
      rw [closedText, parts, hhashbang]
      dsimp only
      rw [d.properties_eq, write_sections_eq _ hclosed, Part.lines_of_append, close_lines_append, body]
  | some line =>
      -- The hashbang is the first line of the first section, and the rest of it follows the properties.
      obtain ⟨-, s, rest, ls, hsplit, hcontent, hlines⟩ := hashbang_eq_some hclosed hhashbang
      have hrest : ∀ s ∈ rest, s.Closed := fun s' hs' =>
        hclosed s' (by rw [hsplit]; exact List.mem_cons_of_mem _ hs')
      have hbody : d.body = .line line :: (ls.map Part.line ++ rest.flatMap Section.parts) := by
        rw [body, hsplit, List.flatMap_cons, Section.parts, hlines]
        rfl
      have hdrop : (Section.plain s).content.drop (line.length + 1) = closeLines ls := by
        rw [Section.content, hcontent, close_lines_cons, closeLine]
        simp
      rw [closedText, parts, hhashbang, hsplit, hbody]
      dsimp only
      rw [hdrop, write_sections_eq _ hrest, d.properties_eq, Part.lines_of_cons,
        Part.lines_of_append, Part.lines_of_append, Part.lines_of_map_line]
      simp [Part.lines]

/-- The properties stand between two stretches of the other parts. -/
theorem parts_split (d : Document) : ∃ before after, d.body = before ++ after ∧
    d.parts = before ++ (d.propertyParts ++ after) := by
  unfold parts
  split
  · next line first rest hhashbang hbody => exact ⟨[first], rest, hbody, rfl⟩
  · exact ⟨[], d.body, rfl, rfl⟩

/-- No part of a section is a property. -/
theorem is_body_of_mem_body {p : Part} (h : p ∈ d.body) : p.isBody = true := by
  obtain ⟨s, -, hp⟩ := List.mem_flatMap.1 h
  cases s with
  | plain s =>
      obtain ⟨l, -, rfl⟩ := List.mem_map.1 hp
      rfl
  | tracked s =>
      obtain rfl := List.mem_singleton.1 hp
      rfl

/-- The parts without the properties are those of the sections. -/
theorem filter_parts (d : Document) : d.parts.filter Part.isBody = d.body := by
  obtain ⟨before, after, hbody, hparts⟩ := d.parts_split
  have hproperties : d.propertyParts.filter Part.isBody = [] := by
    rw [propertyParts]
    cases d.target <;> cases d.permissionsArgument <;> rfl
  rw [hparts, List.filter_append, List.filter_append, hproperties, List.nil_append,
    ← List.filter_append, ← hbody]
  exact List.filter_eq_self.2 fun p hp => is_body_of_mem_body hp

/-- The blocks among the parts of the sections are those of the tracked ones. -/
theorem blocks_body (d : Document) : Part.blocks d.body = d.tracked.map (·.block) := by
  rw [body, Part.blocks, List.filterMap_flatMap, tracked, List.map_filterMap,
    List.filterMap_eq_flatMap_toList]
  exact congrArg (List.flatMap · d.sections) (funext Section.blocks_parts)

/-- The blocks are those of the tracked sections. -/
theorem blocks_parts (d : Document) : Part.blocks d.parts = d.tracked.map (·.block) := by
  obtain ⟨before, after, hbody, hparts⟩ := d.parts_split
  have hproperties : Part.blocks d.propertyParts = [] := by
    rw [propertyParts]
    cases d.target <;> cases d.permissionsArgument <;> rfl
  rw [hparts, Part.blocks_append, Part.blocks_append, hproperties, List.nil_append,
    ← Part.blocks_append, ← hbody, blocks_body]

/-- What the parts say about the whole file is what the properties say. -/
theorem find_argument_parts (d : Document) (kind : MarkerKind) :
    d.parts.findSome? (Part.argument? kind) = d.propertyParts.findSome? (Part.argument? kind) := by
  obtain ⟨before, after, hbody, hparts⟩ := d.parts_split
  have hnone : ∀ p ∈ d.body, Part.argument? kind p = none := by
    intro p hp
    have := is_body_of_mem_body hp
    cases p with
    | line text | block b => rfl
    | property kind argument => cases this
  rw [hbody] at hnone
  have hbefore := List.findSome?_eq_none_iff.2 fun p hp => hnone p (List.mem_append_left _ hp)
  have hafter := List.findSome?_eq_none_iff.2 fun p hp => hnone p (List.mem_append_right _ hp)
  rw [hparts, List.findSome?_append, List.findSome?_append, hbefore, hafter, Option.none_or,
    Option.or_none]

end Document

/-! ## Legible documents -/

/-- Readable parts that were written are read again, except for an empty line at the end. -/
theorem Part.Readable.reread {commentPrefix : Text} {parts : List Part} (h : Readable commentPrefix parts)
    (path : Option Path) (finalNewline : Bool) :
    ∃ kept closed, Document.ofText commentPrefix path (write commentPrefix finalNewline parts) =
        Document.ofLines commentPrefix path closed (linesOf commentPrefix kept) ∧
      Readable commentPrefix kept ∧
      write commentPrefix closed kept = write commentPrefix finalNewline parts ∧
      (kept = parts ∨ parts = kept ++ [.line []]) := by
  obtain ⟨kept, closed, hlines, hreadable, hwrite, hkept⟩ := h.lines_write finalNewline
  refine ⟨kept, closed, ?_, hreadable, hwrite, hkept⟩
  rw [Document.ofText]
  simp only [hlines]

/-- A section with closed lines, whose parts can be read back with a comment prefix and whose digest is
that of its content. -/
structure Section.Legible (commentPrefix : Text) (s : Section) : Prop where
  closed : s.Closed
  valid : ∀ p ∈ s.parts, p.Valid commentPrefix
  current_eq : ∀ t ∈ s.tracked?, t.current = Digest.ofText t.content

/-- A document without a sidecar that can be read back: its properties and its sections can, and no two
sections have one name. -/
structure Document.Legible (d : Document) : Prop where
  sidecar_eq_none : d.sidecar = none
  property_valid : ∀ p ∈ d.propertyParts, p.Valid d.commentPrefix
  section_legible : ∀ s ∈ d.sections, s.Legible d.commentPrefix
  nodup : d.names.Nodup

namespace Document

/-- The parts of a legible document can be read back. -/
theorem Legible.readable {d : Document} (h : d.Legible) : Part.Readable d.commentPrefix d.parts where
  valid := by
    obtain ⟨before, after, hbody, hparts⟩ := d.parts_split
    have hsections : ∀ p ∈ d.body, p.Valid d.commentPrefix := by
      intro p hp
      obtain ⟨s, hs, hp⟩ := List.mem_flatMap.1 hp
      exact (h.section_legible s hs).valid p hp
    rw [hbody] at hsections
    intro p hp
    rw [hparts] at hp
    rcases List.mem_append.1 hp with hp | hp
    · exact hsections p (List.mem_append_left _ hp)
    · rcases List.mem_append.1 hp with hp | hp
      · exact h.property_valid p hp
      · exact hsections p (List.mem_append_right _ hp)
  nodup := by
    rw [blocks_parts, List.map_map]
    exact h.nodup

/-- A document without a sidecar that has closed lines is written as its parts. -/
theorem write_eq_of_closed {d : Document} (hsidecar : d.sidecar = none) (hclosed : ∀ s ∈ d.sections, s.Closed) :
    d.write = Part.write d.commentPrefix d.finalNewline d.parts := by
  rw [Document.write, hsidecar, Part.write, closed_text_eq hclosed]

/-- A legible document is written as its parts. -/
theorem Legible.write_eq {d : Document} (h : d.Legible) :
    d.write = Part.write d.commentPrefix d.finalNewline d.parts :=
  write_eq_of_closed h.sidecar_eq_none fun s hs => (h.section_legible s hs).closed

/-- A legible document that was written is read from its parts, except for an empty line at the end. -/
theorem Legible.reread {d : Document} (h : d.Legible) (path : Option Path) :
    ∃ kept closed, ofText d.commentPrefix path d.write =
        ofLines d.commentPrefix path closed (Part.linesOf d.commentPrefix kept) ∧
      Part.Readable d.commentPrefix kept ∧
      Part.write d.commentPrefix closed kept = d.write ∧
      (kept = d.parts ∨ d.parts = kept ++ [.line []]) := by
  rw [h.write_eq]
  exact h.readable.reread path d.finalNewline

/-- The blocks of a legible document are read back once it is written. -/
theorem Legible.blocks_reread {d : Document} (h : d.Legible) (path : Option Path) :
    (ofText d.commentPrefix path d.write).1.tracked.map (·.block) = d.tracked.map (·.block) := by
  obtain ⟨kept, closed, hread, hreadable, -, hkept⟩ := h.reread path
  have hbody := hreadable.parts_of_lines path closed
  rw [hread, ← blocks_body, body, hbody, Part.blocks_filter_body, ← blocks_parts]
  rcases hkept with rfl | hconcat
  · rfl
  · rw [hconcat, Part.blocks_append]
    exact (List.append_nil _).symm

section Reading

variable {commentPrefix : Text} {path : Option Path} {finalNewline : Bool} {ls : List Text}

/-- A marker on some lines is well-formed and its comment prefix is a line that is not empty. -/
theorem prefix_of_mem_marks {m : Marker} (hline : ∀ l ∈ ls, IsLine l)
    (hm : m ∈ marksFrom commentPrefix 1 ls) :
    commentPrefix ≠ [] ∧ IsLine commentPrefix ∧ m.WellFormed := by
  obtain ⟨hne, hwell, -, -, l, hl, hstart⟩ := mem_marks_from hm
  exact ⟨hne, fun hc => hline l hl (hstart.subset hc), hwell⟩

/-- A marker of the whole file that says something can be read back. -/
theorem valid_property (hline : ∀ l ∈ ls, IsLine l) {kind : MarkerKind} {argument : Text}
    (h : (property? kind (marksFrom commentPrefix 1 ls)).bind (·.argument) = some argument) :
    (Part.property kind argument).Valid commentPrefix := by
  obtain ⟨m, hm, hargument⟩ := Option.bind_eq_some_iff.1 h
  obtain ⟨hne, hcomment, hwell⟩ := prefix_of_mem_marks hline (List.mem_of_find?_eq_some hm)
  obtain ⟨hscope, hkind⟩ : m.scope = Marker.wholeFile ∧ m.kind = kind := by
    simpa [Marker.describesFile] using List.find?_some hm
  have hcheck := hwell.check_eq_none
  rw [hkind, hscope, hargument] at hcheck
  exact .property hne hcomment (hwell.argument_word argument hargument) hcheck

/-- A section that is built from the markers on some lines can be read back with any content. -/
theorem valid_block (hline : ∀ l ∈ ls, IsLine l) {t : Tracked}
    (ht : t ∈ tracks (sectionMarks commentPrefix ls)) {content : List Text}
    (hcontentLine : ∀ l ∈ content, IsLine l)
    (hcontent : ∀ l ∈ content, Marker.isContent commentPrefix l = true) :
    (⟨t.name, t.accepted, t.source, content⟩ : Block).Valid commentPrefix := by
  have hmark : ∀ m ∈ sectionMarks commentPrefix ls, m ∈ marksFrom commentPrefix 1 ls :=
    fun m hm => (List.mem_filter.1 hm).1
  have hbuilt := built_from_of_mem_tracks ht
  obtain ⟨start, hstart, hscope, -, -⟩ := hbuilt.start
  obtain ⟨hash, hhash, -, -, haccepted⟩ := hbuilt.accepted
  obtain ⟨hne, hcomment, hwell⟩ := prefix_of_mem_marks hline (hmark start hstart)
  refine ⟨hne, hcomment, hscope ▸ hwell.scope_word, fun hname => ?_, ?_, ?_, hcontentLine, hcontent⟩
  · exact whole_file_not_mem_tracks _ (List.mem_map.2 ⟨t, ht, hname⟩)
  · exact (prefix_of_mem_marks hline (hmark hash hhash)).2.2.argument_word _ haccepted
  · intro source hsource
    obtain ⟨m, hm, hargument⟩ := hbuilt.source source hsource
    exact (prefix_of_mem_marks hline (hmark m hm)).2.2.argument_word source hargument

/-- The sections of a file can be read back. -/
theorem section_legible_of_lines (hline : ∀ l ∈ ls, IsLine l) {s : Section}
    (hs : s ∈ (ofLines commentPrefix path finalNewline ls).1.sections) :
    s.Legible commentPrefix := by
  obtain ⟨hfirst, hforward, hlast⟩ :=
    (tiles_sections_of_lines commentPrefix path finalNewline ls).mem_range hs
  -- The content lines in the range of the section, as they stand in the file.
  let content := (linesBetween s.first s.last ls).filter (Marker.isContent commentPrefix)
  have hcontentEq : s.content = closeLines content := by
    rw [content_of_mem_sections hs, content_in_content_from hfirst hforward hlast]
  have hcontentLine : ∀ l ∈ content, IsLine l := fun l hl =>
    hline l (List.drop_subset _ _ (List.take_subset _ _ (List.mem_filter.1 hl).1))
  have hcontent : ∀ l ∈ content, Marker.isContent commentPrefix l = true := fun l hl =>
    (List.mem_filter.1 hl).2
  have hlines : s.content.lines.1 = content := by
    rw [hcontentEq, lines_close_lines hcontentLine]
  refine ⟨⟨content, hcontentLine, hcontentEq⟩, fun p hp => ?_, fun t ht => ?_⟩
  · cases s with
    | plain s =>
        obtain ⟨l, hl, rfl⟩ := List.mem_map.1 hp
        have hl : l ∈ content := hlines ▸ hl
        exact .line (hcontentLine l hl) (hcontent l hl)
    | tracked t =>
        obtain rfl := List.mem_singleton.1 hp
        have hmem : t ∈ (ofLines commentPrefix path finalNewline ls).1.tracked :=
          List.mem_filterMap.2 ⟨_, hs, rfl⟩
        rw [tracked_of_lines] at hmem
        obtain ⟨bare, hbare, rfl⟩ := List.mem_map.1 hmem
        refine .block ?_
        rw [Tracked.block, show (fill _ bare).content.lines.1 = content from hlines]
        exact valid_block hline hbare hcontentLine hcontent
  · have hmem : t ∈ (ofLines commentPrefix path finalNewline ls).1.tracked :=
      List.mem_filterMap.2 ⟨s, hs, ht⟩
    rw [tracked_of_lines] at hmem
    obtain ⟨bare, -, rfl⟩ := List.mem_map.1 hmem
    rfl

/-- The document of a file can be read back. -/
theorem legible_of_lines (commentPrefix : Text) (path : Option Path) (finalNewline : Bool)
    (hline : ∀ l ∈ ls, IsLine l) :
    (ofLines commentPrefix path finalNewline ls).1.Legible where
  sidecar_eq_none := rfl
  property_valid p hp := by
    have hargument : ∀ kind, (property? kind (markersOf (readLines commentPrefix ls))).bind
        (·.argument) = (property? kind (marksFrom commentPrefix 1 ls)).bind (·.argument) :=
      fun kind => by rw [markers_of_read_lines]
    rw [propertyParts, List.mem_append, Option.mem_toList, Option.mem_toList] at hp
    rcases hp with hp | hp <;> obtain ⟨argument, harg, rfl⟩ := Option.map_eq_some_iff.1 hp
    · exact valid_property hline ((hargument .target).symm.trans harg)
    · exact valid_property hline ((hargument .permissions).symm.trans harg)
  section_legible s hs := section_legible_of_lines hline hs
  nodup := by
    rw [names_of_lines]
    exact nodup_names_tracks _

end Reading

/-- The document of any text can be read back. -/
theorem legible_of_text (commentPrefix : Text) (path : Option Path) (t : Text) :
    (ofText commentPrefix path t).1.Legible :=
  legible_of_lines commentPrefix path _ fun _ hl => is_line_of_mem_lines hl

end Document

end TrackedSections
