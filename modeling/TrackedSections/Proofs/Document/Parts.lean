import TrackedSections.Proofs.Document.Tracks

/-!
# Files made of parts

A file in canonical form is a list of parts: content lines, properties and tracked blocks. This module
says what each part contributes to the lines, the markers and the content of its file
(`section_marks_of_part`, `content_from_part`), and where its sections lie (`tracksAt`). Read
`Part.Valid` first: it is what a part must satisfy for its lines to be read back.
-/

namespace TrackedSections

open Text Assembly

/-- What the markers of a tracked section say, and the lines between them. -/
structure Block where
  name : Text
  accepted : Text
  source : Option Text
  content : List Text
  deriving DecidableEq

/-- A part of a file: a content line, a marker of the whole file, or a tracked section. -/
inductive Part where
  | line (text : Text)
  | property (kind : MarkerKind) (argument : Text)
  | block (b : Block)
  deriving DecidableEq

namespace Block

variable (commentPrefix : Text) (b : Block)

/-- The lines before the content of a block. -/
def head : List Text :=
  Marker.row commentPrefix .start b.name none ::
    Marker.row commentPrefix .hash b.name (some b.accepted) ::
      b.source.toList.map fun source => Marker.row commentPrefix .source b.name (some source)

/-- The lines of a block. -/
def lines : List Text :=
  b.head commentPrefix ++ (b.content ++ [Marker.row commentPrefix .stop b.name none])

/-- The number of markers before the content of a block. -/
def headSize : Nat := 2 + b.source.toList.length

/-- The number of lines of a block. -/
def size : Nat := b.headSize + b.content.length + 1

/-- The markers of a block that begins on the line `start`. -/
def marks (start : Int) : List Marker :=
  ⟨start, b.name, .start, none⟩ :: ⟨start + 1, b.name, .hash, some b.accepted⟩ ::
    (b.source.toList.map fun source => ⟨start + 2, b.name, .source, some source⟩) ++
    [⟨start + b.size - 1, b.name, .stop, none⟩]

/-- The section of a block that begins on the line `start`, still without content. -/
def track (start : Int) : Tracked :=
  ⟨start, start + b.size - 1, b.name, b.accepted, b.source, [], []⟩

/-- The markers of a block can be written with a comment prefix, and its content has none. -/
structure Valid : Prop where
  ne_nil : commentPrefix ≠ []
  is_line : IsLine commentPrefix
  name_word : IsWord b.name
  name_ne_whole_file : b.name ≠ Marker.wholeFile
  accepted_word : IsWord b.accepted
  source_word : ∀ source ∈ b.source, IsWord source
  content_line : ∀ l ∈ b.content, IsLine l
  content_is_content : ∀ l ∈ b.content, Marker.isContent commentPrefix l = true

end Block

namespace Part

/-- The lines of a part. -/
def lines (commentPrefix : Text) : Part → List Text
  | .line text => [text]
  | .property kind argument =>
    [Marker.row commentPrefix kind Marker.wholeFile (some argument)]
  | .block b => b.lines commentPrefix

/-- The number of lines of a part. -/
def size : Part → Nat
  | .line _ | .property _ _ => 1
  | .block b => b.size

/-- The markers of a part that begins on the line `start`. -/
def marks (start : Int) : Part → List Marker
  | .line _ => []
  | .property kind argument => [⟨start, Marker.wholeFile, kind, some argument⟩]
  | .block b => b.marks start

/-- What a part says about the whole file under a kind of marker. -/
def argument? (kind : MarkerKind) : Part → Option Text
  | .line _ | .block _ => none
  | .property other argument => if other = kind then some argument else none

/-- The markers of a part that belong to a section, when the part begins on the line `start`. -/
def sectionMarks (start : Int) : Part → List Marker
  | .line _ | .property _ _ => []
  | .block b => b.marks start

/-- The content lines of a part that begins on the line `start`. -/
def content (start : Int) : Part → List Numbered
  | .line text => [(start, text)]
  | .property _ _ => []
  | .block b => number (start + b.headSize) b.content

/-- The section of a part that begins on the line `start`. -/
def track? (start : Int) : Part → Option Tracked
  | .line _ | .property _ _ => none
  | .block b => some (b.track start)

/-- The block that a part is, if it is one. -/
def block? : Part → Option Block
  | .line _ | .property _ _ => none
  | .block b => some b

/-- A part is no property. -/
def isBody : Part → Bool
  | .line _ | .block _ => true
  | .property _ _ => false

/-- The lines of a part are read back as what they are with a comment prefix. -/
inductive Valid (commentPrefix : Text) : Part → Prop where
  | line {text : Text} (hline : IsLine text)
      (hcontent : Marker.isContent commentPrefix text = true) : Valid commentPrefix (.line text)
  | property {kind : MarkerKind} {argument : Text} (hne : commentPrefix ≠ [])
      (hline : IsLine commentPrefix) (hword : IsWord argument)
      (hcheck : Marker.check kind Marker.wholeFile (some argument) = none) :
      Valid commentPrefix (.property kind argument)
  | block {b : Block} (hblock : b.Valid commentPrefix) : Valid commentPrefix (.block b)

end Part

/-! ## Rows and stretches of content -/

variable {commentPrefix : Text}

/-- A canonical line is not empty. -/
theorem Marker.row_ne_nil (kind : MarkerKind) (name : Text) (argument : Option Text) :
    row commentPrefix kind name argument ≠ [] := by
  simp [row]

namespace Assembly

/-- The canonical line of a well-formed marker contributes that marker. -/
theorem marks_from_row_cons (hne : commentPrefix ≠ []) {m : Marker} (hm : m.WellFormed)
    (ls : List Text) :
    marksFrom commentPrefix m.line (Marker.row commentPrefix m.kind m.scope m.argument :: ls) =
      m :: marksFrom commentPrefix (m.line + 1) ls := by
  rw [marks_from_cons, Marker.read_row hne hm]
  rfl

/-- The canonical line of a well-formed marker contributes no content. -/
theorem content_from_row_cons (hne : commentPrefix ≠ []) {m : Marker} (hm : m.WellFormed)
    (ls : List Text) :
    contentFrom commentPrefix m.line (Marker.row commentPrefix m.kind m.scope m.argument :: ls) =
      contentFrom commentPrefix (m.line + 1) ls := by
  have hmarker : Marker.isContent commentPrefix
      (Marker.row commentPrefix m.kind m.scope m.argument) = false := by
    rw [← Marker.is_none_marker_read _ _ m.line, Marker.read_row hne hm]
    rfl
  rw [contentFrom, number, List.filter_cons_of_neg (by simp [hmarker]), contentFrom]

/-- Content contributes no markers. -/
theorem marks_from_content {ls : List Text}
    (h : ∀ l ∈ ls, Marker.isContent commentPrefix l = true) (start : Int) :
    marksFrom commentPrefix start ls = [] := by
  refine List.filterMap_eq_nil_iff.2 ?_
  intro a ha
  have hcontent := h a.2 (mem_number ha).2.2
  rw [← Marker.is_none_marker_read _ _ a.1] at hcontent
  exact Option.isNone_iff_eq_none.1 hcontent

/-- Content contributes all of itself. -/
theorem content_from_content {ls : List Text}
    (h : ∀ l ∈ ls, Marker.isContent commentPrefix l = true) (start : Int) :
    contentFrom commentPrefix start ls = number start ls :=
  List.filter_eq_self.2 fun _ ha => h _ (mem_number ha).2.2

end Assembly

namespace Block

variable {b : Block}

theorem Valid.well_formed_start (h : b.Valid commentPrefix) (line : Int) :
    (⟨line, b.name, .start, none⟩ : Marker).WellFormed :=
  ⟨h.name_word, by simp, rfl⟩

theorem Valid.well_formed_hash (h : b.Valid commentPrefix) (line : Int) :
    (⟨line, b.name, .hash, some b.accepted⟩ : Marker).WellFormed :=
  ⟨h.name_word, by simpa using h.accepted_word, rfl⟩

theorem Valid.well_formed_source (h : b.Valid commentPrefix) {source : Text}
    (hsource : b.source = some source) (line : Int) :
    (⟨line, b.name, .source, some source⟩ : Marker).WellFormed :=
  ⟨h.name_word, by simpa using h.source_word source hsource, rfl⟩

theorem Valid.well_formed_stop (h : b.Valid commentPrefix) (line : Int) :
    (⟨line, b.name, .stop, none⟩ : Marker).WellFormed :=
  ⟨h.name_word, by simp, rfl⟩

/-- The lines before the content are as many as the markers there. -/
theorem length_head : (b.head commentPrefix).length = b.headSize := by
  simp [head, headSize]
  omega

/-- A block has as many lines as its size says. -/
theorem length_lines : (b.lines commentPrefix).length = b.size := by
  simp [lines, length_head, size]
  omega

/-- All markers of a block have its name. -/
theorem scope_of_mem_marks {start : Int} {m : Marker} (h : m ∈ b.marks start) :
    m.scope = b.name := by
  simp only [marks, List.mem_append, List.mem_cons, List.mem_map, List.not_mem_nil,
    or_false] at h
  rcases h with (rfl | rfl | ⟨source, -, rfl⟩) | rfl <;> rfl

/-- The source of a block, if it has one, contributes its marker. -/
theorem Valid.marks_from_source (h : b.Valid commentPrefix) (start : Int) (ls : List Text) :
    marksFrom commentPrefix start ((b.source.toList.map fun source =>
        Marker.row commentPrefix .source b.name (some source)) ++ ls) =
      (b.source.toList.map fun source => ⟨start, b.name, .source, some source⟩) ++
        marksFrom commentPrefix (start + b.source.toList.length) ls := by
  cases hsource : b.source with
  | none =>
      rw [Option.toList_none, List.length_nil]
      simp
  | some source => exact marks_from_row_cons h.ne_nil (h.well_formed_source hsource start) ls

/-- The source of a block contributes no content. -/
theorem Valid.content_from_source (h : b.Valid commentPrefix) (start : Int) (ls : List Text) :
    contentFrom commentPrefix start ((b.source.toList.map fun source =>
        Marker.row commentPrefix .source b.name (some source)) ++ ls) =
      contentFrom commentPrefix (start + b.source.toList.length) ls := by
  cases hsource : b.source with
  | none =>
      rw [Option.toList_none, List.length_nil]
      simp
  | some source => exact content_from_row_cons h.ne_nil (h.well_formed_source hsource start) ls

/-- A block contributes its markers. -/
theorem marks_from_lines (h : b.Valid commentPrefix) (start : Int) :
    marksFrom commentPrefix start (b.lines commentPrefix) = b.marks start := by
  have hstart := marks_from_row_cons h.ne_nil (h.well_formed_start start)
  have hhash := marks_from_row_cons h.ne_nil (h.well_formed_hash (start + 1))
  have hstop : ∀ line, marksFrom commentPrefix line [Marker.row commentPrefix .stop b.name none] =
      [⟨line, b.name, .stop, none⟩] := fun line =>
    marks_from_row_cons h.ne_nil (h.well_formed_stop line) []
  have hsecond : start + 1 + 1 = start + 2 := by omega
  have hlast : start + 2 + b.source.toList.length + b.content.length = start + b.size - 1 := by
    simp only [size, headSize]
    omega
  rw [lines, head, List.cons_append, List.cons_append, hstart, hhash, h.marks_from_source,
    marks_from_append, marks_from_content h.content_is_content, hstop, hsecond, hlast]
  rfl

/-- A block contributes its content. -/
theorem content_from_lines (h : b.Valid commentPrefix) (start : Int) :
    contentFrom commentPrefix start (b.lines commentPrefix) =
      number (start + b.headSize) b.content := by
  have hstart := content_from_row_cons h.ne_nil (h.well_formed_start start)
  have hhash := content_from_row_cons h.ne_nil (h.well_formed_hash (start + 1))
  have hstop : ∀ line, contentFrom commentPrefix line [Marker.row commentPrefix .stop b.name none] =
      [] := fun line => content_from_row_cons h.ne_nil (h.well_formed_stop line) []
  have hfirst : start + 1 + 1 + b.source.toList.length = start + b.headSize := by
    simp only [headSize]
    omega
  rw [lines, head, List.cons_append, List.cons_append, hstart, hhash, h.content_from_source,
    content_from_append, content_from_content h.content_is_content, hstop, List.append_nil, hfirst]

end Block

/-! ## Lists of parts -/

namespace Part

/-- The lines of a list of parts. -/
def linesOf (commentPrefix : Text) (parts : List Part) : List Text :=
  parts.flatMap (lines commentPrefix)

/-- The lines of parts come one after another. -/
theorem lines_of_cons (commentPrefix : Text) (p : Part) (parts : List Part) :
    linesOf commentPrefix (p :: parts) = p.lines commentPrefix ++ linesOf commentPrefix parts :=
  List.flatMap_cons

theorem lines_of_append (commentPrefix : Text) (parts parts' : List Part) :
    linesOf commentPrefix (parts ++ parts') =
      linesOf commentPrefix parts ++ linesOf commentPrefix parts' :=
  List.flatMap_append

/-- Content lines are written as they are. -/
theorem lines_of_map_line (commentPrefix : Text) (ls : List Text) :
    linesOf commentPrefix (ls.map .line) = ls := by
  simp [linesOf, List.flatMap_map, lines]

/-- The blocks among some parts. -/
def blocks (parts : List Part) : List Block := parts.filterMap block?

theorem blocks_append (parts parts' : List Part) :
    blocks (parts ++ parts') = blocks parts ++ blocks parts' :=
  List.filterMap_append

/-- The properties are no blocks. -/
theorem blocks_filter_body (parts : List Part) : blocks (parts.filter isBody) = blocks parts := by
  have hblock : (fun p : Part => if p.isBody then p.block? else none) = block? := by
    funext p
    cases p <;> rfl
  rw [blocks, blocks, List.filterMap_filter, hblock]

/-- The sections of a list of parts that begins on the line `start`, still without content. -/
def tracksAt (start : Int) : List Part → List Tracked
  | [] => []
  | p :: rest => (p.track? start).toList ++ tracksAt (start + p.size) rest

/-- The markers in a list of parts that belong to sections. -/
def sectionMarksAt (start : Int) : List Part → List Marker
  | [] => []
  | p :: rest => p.sectionMarks start ++ sectionMarksAt (start + p.size) rest

/-- The lines of these parts are read back as what they are: each part is, and no two blocks have one
name. -/
structure Readable (commentPrefix : Text) (parts : List Part) : Prop where
  valid : ∀ p ∈ parts, p.Valid commentPrefix
  nodup : ((blocks parts).map (·.name)).Nodup

variable {p : Part} {parts : List Part}

/-- A part has as many lines as its size says. -/
theorem length_lines : (p.lines commentPrefix).length = p.size := by
  cases p with
  | line text | property kind argument => rfl
  | block b => exact Block.length_lines

/-- A property is written by a well-formed marker of the whole file. -/
theorem well_formed_property {kind : MarkerKind} {argument : Text} (hword : IsWord argument)
    (hcheck : Marker.check kind Marker.wholeFile (some argument) = none) (line : Int) :
    (⟨line, Marker.wholeFile, kind, some argument⟩ : Marker).WellFormed :=
  ⟨(by decide : IsWord Marker.wholeFile), by simpa using hword, hcheck⟩

/-- No line of a part has a line feed in it. -/
theorem Valid.is_line (h : p.Valid commentPrefix) : ∀ l ∈ p.lines commentPrefix, IsLine l := by
  cases h with
  | line hline hcontent => simpa [lines] using hline
  | property hne hline hword hcheck =>
      simpa [lines] using Marker.is_line_row hline (well_formed_property hword hcheck 0)
  | @block b hblock =>
      have hstart := Marker.is_line_row hblock.is_line (hblock.well_formed_start 0)
      have hhash := Marker.is_line_row hblock.is_line (hblock.well_formed_hash 0)
      have hstop := Marker.is_line_row hblock.is_line (hblock.well_formed_stop 0)
      intro l hl
      simp only [lines, Block.lines, Block.head, List.mem_append, List.mem_cons, List.mem_map,
        Option.mem_toList, List.not_mem_nil, or_false] at hl
      rcases hl with (rfl | rfl | ⟨source, hsource, rfl⟩) | hl | rfl
      · exact hstart
      · exact hhash
      · exact Marker.is_line_row hblock.is_line (hblock.well_formed_source hsource 0)
      · exact hblock.content_line l hl
      · exact hstop

/-- A part contributes its markers. -/
theorem Valid.marks_from (h : p.Valid commentPrefix) (start : Int) :
    marksFrom commentPrefix start (p.lines commentPrefix) = p.marks start := by
  cases h with
  | line hline hcontent => rw [lines, marks_from_content (by simpa using hcontent), marks]
  | property hne hline hword hcheck =>
      exact marks_from_row_cons hne (well_formed_property hword hcheck start) []
  | block hblock => rw [lines, Block.marks_from_lines hblock, marks]

/-- The markers of a block do not describe the whole file. -/
theorem Valid.describes_file_of_block {b : Block} (h : b.Valid commentPrefix) {start : Int}
    {m : Marker} (hm : m ∈ b.marks start) : m.describesFile = false := by
  simp [Marker.describesFile, Block.scope_of_mem_marks hm, h.name_ne_whole_file]

/-- The markers of a part that do not describe the whole file are those of its section. -/
theorem Valid.filter_marks (h : p.Valid commentPrefix) (start : Int) :
    (p.marks start).filter (!·.describesFile) = p.sectionMarks start := by
  cases h with
  | line hline hcontent => rfl
  | property hne hline hword hcheck => rfl
  | block hblock =>
      exact List.filter_eq_self.2 fun m hm => by simp [describes_file_of_block hblock hm]

/-- The marker of a part that describes the whole file says what the part does. -/
theorem Valid.property_marks (h : p.Valid commentPrefix) (kind : MarkerKind) (start : Int) :
    property? kind (p.marks start) =
      (p.argument? kind).map fun argument => ⟨start, Marker.wholeFile, kind, some argument⟩ := by
  cases h with
  | line hline hcontent => rfl
  | @property other argument hne hline hword hcheck =>
      by_cases hkind : other = kind <;>
        simp [marks, argument?, property?, Marker.describesFile, hkind]
  | @block b hblock =>
      exact List.find?_eq_none.2 fun m hm => by simp [describes_file_of_block hblock hm]

/-- A part contributes its content. -/
theorem Valid.content_from (h : p.Valid commentPrefix) (start : Int) :
    contentFrom commentPrefix start (p.lines commentPrefix) = p.content start := by
  cases h with
  | line hline hcontent => rw [lines, content_from_content (by simpa using hcontent)]; rfl
  | @property kind argument hne hline hword hcheck =>
      have hrow := content_from_row_cons hne (well_formed_property hword hcheck start) []
      rw [lines]
      exact hrow
  | block hblock => rw [lines, Block.content_from_lines hblock, content]

namespace Readable

theorem head (h : Readable commentPrefix (p :: parts)) : p.Valid commentPrefix :=
  h.valid p List.mem_cons_self

theorem tail (h : Readable commentPrefix (p :: parts)) : Readable commentPrefix parts where
  valid q hq := h.valid q (List.mem_cons_of_mem _ hq)
  nodup := by
    refine h.nodup.sublist (List.Sublist.map _ ?_)
    exact (List.sublist_cons_self p parts).filterMap _

/-- Readable parts stay readable without those at the end. -/
theorem of_append {parts' : List Part} (h : Readable commentPrefix (parts ++ parts')) :
    Readable commentPrefix parts where
  valid q hq := h.valid q (List.mem_append_left _ hq)
  nodup := by
    have hnodup := h.nodup
    rw [blocks_append, List.map_append] at hnodup
    exact (List.nodup_append.1 hnodup).1

/-- No line of readable parts has a line feed in it. -/
theorem is_line (h : Readable commentPrefix parts) :
    ∀ l ∈ linesOf commentPrefix parts, IsLine l := by
  intro l hl
  obtain ⟨p, hp, hl⟩ := List.mem_flatMap.1 hl
  exact (h.valid p hp).is_line l hl

/-- Readable parts contribute their markers one after another. -/
theorem marks_from_cons (h : Readable commentPrefix (p :: parts)) (start : Int) :
    marksFrom commentPrefix start (linesOf commentPrefix (p :: parts)) = p.marks start ++
      marksFrom commentPrefix (start + p.size) (linesOf commentPrefix parts) := by
  rw [lines_of_cons, marks_from_append, h.head.marks_from, length_lines]

/-- Readable parts contribute their content one after another. -/
theorem content_from_cons (h : Readable commentPrefix (p :: parts)) (start : Int) :
    contentFrom commentPrefix start (linesOf commentPrefix (p :: parts)) = p.content start ++
      contentFrom commentPrefix (start + p.size) (linesOf commentPrefix parts) := by
  rw [lines_of_cons, content_from_append, h.head.content_from, length_lines]

/-- The markers of readable parts that belong to sections. -/
theorem section_marks (h : Readable commentPrefix parts) (start : Int) :
    (marksFrom commentPrefix start (linesOf commentPrefix parts)).filter (!·.describesFile) =
      sectionMarksAt start parts := by
  induction parts generalizing start with
  | nil => rfl
  | cons p parts ih =>
      rw [h.marks_from_cons, List.filter_append, h.head.filter_marks, ih h.tail, sectionMarksAt]

/-- What the markers of readable parts say about the whole file is what the first such part says. -/
theorem property_marks_from (h : Readable commentPrefix parts) (kind : MarkerKind) (start : Int) :
    (property? kind (marksFrom commentPrefix start (linesOf commentPrefix parts))).bind
      (·.argument) = parts.findSome? (argument? kind) := by
  induction parts generalizing start with
  | nil => rfl
  | cons p parts ih =>
      rw [h.marks_from_cons, property?, List.find?_append, ← property?, ← property?,
        h.head.property_marks, List.findSome?_cons, ← ih h.tail (start + p.size)]
      cases p.argument? kind <;> rfl

end Readable

end Part

end TrackedSections
