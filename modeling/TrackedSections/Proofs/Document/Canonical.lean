import TrackedSections.Proofs.Document.NormalForm

/-!
# Canonical files are read and written as they are

A `Layout` is the plan of a file in canonical form: what the file says about itself, its content
lines and its blocks. `canonical_round_trip` says that the text of such a file is written back
octet for octet once it was read, and that its sections are just its blocks where they stand. Read
`tracked_of_parts` first: readable parts are read as the sections of their blocks.
-/

namespace TrackedSections

open Text Assembly

namespace Part

variable {commentPrefix : Text} {parts : List Part}

/-- The sections of the blocks among some parts, of which the first begins on the line `start`. -/
def sectionsAt (start : Int) : List Part → List Tracked
  | [] => []
  | p :: rest => (p.block?.map (·.section start)).toList ++ sectionsAt (start + p.size) rest

/-- A content line at the end adds no section. -/
theorem sections_at_concat_line (start : Int) (parts : List Part) (text : Text) :
    sectionsAt start (parts ++ [.line text]) = sectionsAt start parts := by
  induction parts generalizing start with
  | nil => rfl
  | cons p parts ih => rw [List.cons_append, sectionsAt, ih, sectionsAt]

/-- The tracked ones among the sections of parts are those of their blocks. -/
theorem tracked_sections_from (cursor start : Int) (waiting : List Text) (parts : List Part) :
    (sectionsFrom cursor start waiting parts).filterMap Section.tracked? = sectionsAt start parts := by
  have hplain (cursor start : Int) (waiting : List Text) :
      (plainFrom cursor start waiting).filterMap Section.tracked? = [] := by
    unfold plainFrom plainOf
    split <;> rfl
  induction parts generalizing cursor start waiting with
  | nil => exact hplain cursor start waiting
  | cons p parts ih =>
      cases p with
      | line text => exact ih cursor (start + 1) (waiting ++ [text])
      | property kind argument => exact ih cursor (start + 1) waiting
      | block b =>
          rw [sectionsFrom, List.filterMap_append, hplain, List.nil_append,
            List.filterMap_cons_some (by rfl), ih]
          rfl

/-- Readable parts are read as the sections of their blocks. -/
theorem Readable.tracked_of_parts (h : Readable commentPrefix parts) (path : Option Path)
    (finalNewline : Bool) :
    (Document.ofLines commentPrefix path finalNewline (linesOf commentPrefix parts)).1.tracked =
      sectionsAt 1 parts := by
  rw [Document.tracked, h.sections_of_lines]
  exact tracked_sections_from 1 1 [] parts

/-- Readable parts say about the whole file what the first such part says. -/
theorem Readable.properties_of_parts (h : Readable commentPrefix parts) (path : Option Path)
    (finalNewline : Bool) :
    (Document.ofLines commentPrefix path finalNewline (linesOf commentPrefix parts)).1.target =
        parts.findSome? (argument? .target) ∧
      (Document.ofLines commentPrefix path finalNewline
          (linesOf commentPrefix parts)).1.permissionsArgument =
        parts.findSome? (argument? .permissions) := by
  rw [← h.property_marks_from .target 1, ← h.property_marks_from .permissions 1,
    ← markers_of_read_lines]
  exact ⟨rfl, rfl⟩

/-- Readable parts that are arranged are written as they were once they were read. -/
theorem Readable.write_of_text (h : Readable commentPrefix parts) (harranged : Arranged parts)
    (path : Option Path) (finalNewline : Bool) :
    (Document.ofText commentPrefix path (write commentPrefix finalNewline parts)).1.write =
      write commentPrefix finalNewline parts := by
  obtain ⟨kept, closed, hread, hreadable, hwrite, hkept⟩ := h.reread path finalNewline
  have hkeptArranged : Arranged kept := by
    rcases hkept with rfl | hconcat
    · exact harranged
    · exact Arranged.of_concat (hconcat ▸ harranged)
  have hlegible := Document.legible_of_lines commentPrefix path closed hreadable.is_line
  calc (Document.ofText commentPrefix path (write commentPrefix finalNewline parts)).1.write
      = (Document.ofLines commentPrefix path closed (linesOf commentPrefix kept)).1.write :=
        congrArg (·.1.write) hread
    _ = write commentPrefix closed
          (Document.ofLines commentPrefix path closed (linesOf commentPrefix kept)).1.parts :=
        hlegible.write_eq
    _ = write commentPrefix closed kept :=
        congrArg (write commentPrefix closed) (Document.parts_reread hreadable hkeptArranged)
    _ = write commentPrefix finalNewline parts := hwrite

/-- Readable parts are read as the sections of their blocks, and with what they say about the file,
once they were written. -/
theorem Readable.reads_of_text (h : Readable commentPrefix parts) (path : Option Path)
    (finalNewline : Bool) :
    let d := (Document.ofText commentPrefix path (write commentPrefix finalNewline parts)).1
    d.tracked = sectionsAt 1 parts ∧ d.target = parts.findSome? (argument? .target) ∧
      d.permissionsArgument = parts.findSome? (argument? .permissions) := by
  obtain ⟨kept, closed, hread, hreadable, -, hkept⟩ := h.reread path finalNewline
  obtain ⟨htarget, hpermissions⟩ := hreadable.properties_of_parts path closed
  rw [hread]
  dsimp only
  rw [hreadable.tracked_of_parts, htarget, hpermissions]
  -- An empty last line that was left open is neither a block nor a property.
  rcases hkept with rfl | rfl
  · exact ⟨rfl, rfl, rfl⟩
  · simp [sections_at_concat_line, argument?]

end Part

/-- The plan of a file in canonical form: the target and the permissions that it names, its content
lines and blocks in order, and whether its last line is closed. -/
structure Layout where
  target : Option Text
  permissions : Option Text
  body : List Part
  isClosed : Bool

namespace Layout

variable {commentPrefix : Text} {l : Layout}

/-- What the file says about itself, the target first. -/
def properties (l : Layout) : List Part :=
  (l.target.map (Part.property .target)).toList ++
    (l.permissions.map (Part.property .permissions)).toList

/-- The parts of the file. What it says about itself comes first, or second if its first content line is
a hashbang. -/
def parts (l : Layout) : List Part := Part.arrange l.properties l.body

/-- The text of the file. -/
def text (commentPrefix : Text) (l : Layout) : Text := Part.write commentPrefix l.isClosed l.parts

/-- A layout is canonical for a comment prefix when its properties can be written as markers, every
other part is a content line or a block that can, and no two blocks have one name. -/
structure Canonical (commentPrefix : Text) (l : Layout) : Prop where
  ne_nil : commentPrefix ≠ []
  is_line : IsLine commentPrefix
  target_word : ∀ word ∈ l.target, IsWord word
  permissions_digits : ∀ word ∈ l.permissions, IsWord word ∧ word.all isDigit = true
  is_body : ∀ p ∈ l.body, p.isBody = true
  valid : ∀ p ∈ l.body, p.Valid commentPrefix
  nodup : ((Part.blocks l.body).map (·.name)).Nodup

/-- A part of a layout is one of its properties or in its body. -/
theorem mem_parts {p : Part} : p ∈ l.parts ↔ p ∈ l.properties ∨ p ∈ l.body := by
  rw [parts]
  cases l.body with
  | nil => simp [Part.arrange]
  | cons first rest =>
      rw [Part.arrange]
      split
      · simp only [List.mem_cons, List.mem_append]
        tauto
      · simp only [List.mem_cons, List.mem_append]

/-- The properties of a layout are found among them. -/
theorem find_argument_properties (l : Layout) :
    l.properties.findSome? (Part.argument? .target) = l.target ∧
      l.properties.findSome? (Part.argument? .permissions) = l.permissions := by
  rw [properties]
  cases l.target <;> cases l.permissions <;> exact ⟨rfl, rfl⟩

namespace Canonical

/-- No part of the body says anything about the file. -/
theorem argument_eq_none (h : l.Canonical commentPrefix) (kind : MarkerKind) :
    ∀ p ∈ l.body, Part.argument? kind p = none := by
  intro p hp
  have hbody := h.is_body p hp
  cases p with
  | line text | block b => rfl
  | property other argument => cases hbody

/-- A question to all parts that the body does not answer is answered by the properties. -/
theorem find_parts (h : l.Canonical commentPrefix) (kind : MarkerKind) :
    l.parts.findSome? (Part.argument? kind) = l.properties.findSome? (Part.argument? kind) := by
  have hnone := h.argument_eq_none kind
  rw [parts]
  cases hbody : l.body with
  | nil => rfl
  | cons first rest =>
      rw [hbody] at hnone
      obtain ⟨hfirst, hrest⟩ := List.forall_mem_cons.1 hnone
      have hrestNone := List.findSome?_eq_none_iff.2 hrest
      rw [Part.arrange]
      split
      · rw [List.findSome?_cons, hfirst, List.findSome?_append, hrestNone, Option.or_none]
      · rw [List.findSome?_append, List.findSome?_cons, hfirst, hrestNone, Option.or_none]

/-- The parts that are no properties are those of the body. -/
theorem filter_parts (h : l.Canonical commentPrefix) : l.parts.filter Part.isBody = l.body := by
  have hnone : l.properties.filter Part.isBody = [] := by
    rw [properties]
    cases l.target <;> cases l.permissions <;> rfl
  have hall := List.filter_eq_self.2 h.is_body
  rw [parts]
  cases hbody : l.body with
  | nil => rw [Part.arrange, hnone]
  | cons first rest =>
      rw [hbody, List.filter_cons_of_pos (h.is_body first (by simp [hbody]))] at hall
      have hfirst : [first].filter Part.isBody = [first] :=
        List.filter_cons_of_pos (h.is_body first (by simp [hbody]))
      rw [Part.arrange]
      split
      · rw [List.filter_cons_of_pos (h.is_body first (by simp [hbody])), List.filter_append, hnone,
          List.nil_append, hall]
      · rw [List.filter_append, hnone, List.nil_append,
          List.filter_cons_of_pos (h.is_body first (by simp [hbody])), hall]

/-- The parts of a canonical layout stand in the order in which they are written. -/
theorem arranged (h : l.Canonical commentPrefix) : Part.Arranged l.parts := by
  obtain ⟨htarget, hpermissions⟩ := l.find_argument_properties
  rw [Part.Arranged, Part.properties, h.find_parts, h.find_parts, htarget, hpermissions,
    h.filter_parts]
  rfl

/-- The parts of a canonical layout can be read back. -/
theorem readable (h : l.Canonical commentPrefix) : Part.Readable commentPrefix l.parts where
  valid p hp := by
    rcases mem_parts.1 hp with hp | hp
    · rw [properties, List.mem_append, Option.mem_toList, Option.mem_toList] at hp
      rcases hp with hp | hp <;> obtain ⟨word, hword, rfl⟩ := Option.map_eq_some_iff.1 hp
      · exact .property h.ne_nil h.is_line (h.target_word word hword) rfl
      · obtain ⟨hisWord, hdigits⟩ := h.permissions_digits word hword
        exact .property h.ne_nil h.is_line hisWord (by simp [Marker.check, hdigits])
    · exact h.valid p hp
  nodup := by
    rw [← Part.blocks_filter_body, h.filter_parts]
    exact h.nodup

end Canonical

end Layout

/-- A file in canonical form is written back as it is once it was read, and its sections are its blocks:
each with the lines that the block has in the file, the content and the source of the block, and what
its hash marker says. -/
theorem Document.canonical_round_trip {commentPrefix : Text} {l : Layout}
    (h : l.Canonical commentPrefix) (path : Option Path) :
    let d := (ofText commentPrefix path (l.text commentPrefix)).1
    d.write = l.text commentPrefix ∧ d.tracked = Part.sectionsAt 1 l.parts ∧
      d.target = l.target ∧ d.permissionsArgument = l.permissions := by
  obtain ⟨htarget, hpermissions⟩ := l.find_argument_properties
  obtain ⟨hsections, hreadTarget, hreadPermissions⟩ :=
    h.readable.reads_of_text path l.isClosed
  refine ⟨h.readable.write_of_text h.arranged path l.isClosed, hsections, ?_, ?_⟩
  · exact hreadTarget.trans ((h.find_parts .target).trans htarget)
  · exact hreadPermissions.trans ((h.find_parts .permissions).trans hpermissions)

/-- A script with a hashbang, a target, permissions and two blocks, the last one left open. -/
def scriptLayout : Layout where
  target := some "t.sh".toList
  permissions := some "755".toList
  body := [.line "#!/bin/sh".toList, .line [],
    .block ⟨"a".toList, "0".toList, some "s.sh".toList, ["x".toList, []]⟩, .line "y".toList,
    .block ⟨"b".toList, "1".toList, none, []⟩]
  isClosed := false

example : scriptLayout.text ['#'] =
    ("#!/bin/sh\n#... all target t.sh\n#... all permissions 755\n\n#... a begin\n#... a hash 0\n" ++
      "#... a source s.sh\nx\n\n#... a end\ny\n#... b begin\n#... b hash 1\n#... b end").toList := by
  decide +kernel

/-- The script is canonical, so it is written back as it is, and its sections are its two blocks. -/
theorem Document.script_round_trip :
    scriptLayout.Canonical ['#'] ∧
      let d := (ofText ['#'] none (scriptLayout.text ['#'])).1
      d.write = scriptLayout.text ['#'] ∧
        d.tracked = [Block.section ⟨"a".toList, "0".toList, some "s.sh".toList, ["x".toList, []]⟩ 5,
          Block.section ⟨"b".toList, "1".toList, none, []⟩ 12] ∧
        d.target = some "t.sh".toList ∧ d.permissionsArgument = some "755".toList := by
  have hcanonical : scriptLayout.Canonical ['#'] :=
    { ne_nil := by decide
      is_line := by decide
      target_word := by decide
      permissions_digits := by decide
      is_body := by decide
      nodup := by decide
      valid := by
        intro p hp
        simp only [scriptLayout, List.mem_cons, List.not_mem_nil, or_false] at hp
        rcases hp with rfl | rfl | rfl | rfl | rfl
        · exact .line (by decide) (by decide)
        · exact .line (by decide) (by decide)
        · exact .block ⟨by decide, by decide, by decide, by decide, by decide, by decide, by decide,
            by decide⟩
        · exact .line (by decide) (by decide)
        · exact .block ⟨by decide, by decide, by decide, by decide, by decide, by decide, by decide,
            by decide⟩ }
  exact ⟨hcanonical, canonical_round_trip hcanonical none⟩

end TrackedSections
