import TrackedSections.Proofs.Document.Legible

/-!
# Writing a document gives a normal form

`write_write` says that a file that was written, read and written again stays as it is. Read
`parts_eq_arrange` and `parts_reread` first: the parts of a file are determined by its properties and
by the parts of its sections, and all of them are read back.
-/

namespace TrackedSections

open Text Assembly

namespace Part

/-- A content line that names an interpreter. -/
def isHashbang : Part → Bool
  | .line text => Document.isHashbang text
  | .property _ _ | .block _ => false

/-- The properties of a file in front of its other parts, or behind the first of them if it is a
hashbang. -/
def arrange (properties : List Part) : List Part → List Part
  | [] => properties
  | first :: rest =>
    if first.isHashbang then first :: (properties ++ rest) else properties ++ first :: rest

/-- What some parts say about the whole file: the first target and the first permissions. -/
def properties (parts : List Part) : List Part :=
  ((parts.findSome? (argument? .target)).map (property .target)).toList ++
    ((parts.findSome? (argument? .permissions)).map (property .permissions)).toList

/-- Parts in the order in which they are written: one property of a kind at most, and all of them in
their place. -/
def Arranged (parts : List Part) : Prop := arrange (properties parts) (parts.filter isBody) = parts

/-- An empty line at the end stays there. -/
theorem arrange_concat (properties body : List Part) :
    arrange properties (body ++ [.line []]) = arrange properties body ++ [.line []] := by
  cases body with
  | nil => rfl
  | cons first rest =>
      rw [List.cons_append, arrange, arrange]
      split <;> simp

/-- Parts stay arranged without an empty line at the end. -/
theorem Arranged.of_concat {parts : List Part} (h : Arranged (parts ++ [.line []])) :
    Arranged parts := by
  have hproperties : properties (parts ++ [line []]) = properties parts := by
    simp [properties, argument?, List.findSome?_append]
  have hbody : (parts ++ [line []]).filter isBody = parts.filter isBody ++ [line []] := by
    rw [List.filter_append]
    rfl
  rw [Arranged, hproperties, hbody, arrange_concat] at h
  exact List.append_cancel_right h

end Part

namespace Assembly

/-- No plain section follows a plain one at the beginning. -/
theorem lay_out_plain_cons {last first : Int} {ts : List Tracked} {s : Plain} {rest : List Section}
    (h : layOut last first ts = .plain s :: rest) :
    rest = [] ∨ ∃ t rest', rest = .tracked t :: rest' := by
  cases ts with
  | nil =>
      rw [layOut, plainOf] at h
      split at h
      · exact .inl (List.cons.inj h).2.symm
      · cases h
  | cons t ts =>
      rw [layOut, plainOf] at h
      split at h
      · exact .inr ⟨t, _, (List.cons.inj h).2.symm⟩
      · cases h

end Assembly

namespace Document

variable {commentPrefix : Text} {path : Option Path} {finalNewline : Bool} {ls : List Text}

/-- In a file, no plain section follows a plain one at the beginning. -/
theorem sections_plain_cons {s : Plain} {rest : List Section}
    (h : (ofLines commentPrefix path finalNewline ls).1.sections = .plain s :: rest) :
    rest = [] ∨ ∃ t rest', rest = .tracked t :: rest' := by
  rw [sections_of_lines, List.map_eq_cons_iff] at h
  obtain ⟨bare, others, hlay, hbare, rfl⟩ := h
  cases bare with
  | tracked t => cases hbare
  | plain s' =>
      refine (lay_out_plain_cons hlay).imp (fun hnil => ?_) (fun ⟨t, others', hcons⟩ => ?_)
      · rw [hnil]
        rfl
      · rw [hcons]
        exact ⟨_, _, rfl⟩

/-- A file whose first part is a hashbang has that hashbang. -/
theorem hashbang_of_body (hline : ∀ l ∈ ls, IsLine l) {first : Part} {rest : List Part}
    (hbody : (ofLines commentPrefix path finalNewline ls).1.body = first :: rest)
    (hfirst : first.isHashbang = true) :
    (ofLines commentPrefix path finalNewline ls).1.hashbang? ≠ none := by
  have hlegible := legible_of_lines commentPrefix path finalNewline hline
  cases hsections : (ofLines commentPrefix path finalNewline ls).1.sections with
  | nil =>
      rw [body, hsections] at hbody
      cases hbody
  | cons s others =>
      rw [body, hsections, List.flatMap_cons] at hbody
      cases s with
      | tracked t =>
          obtain rfl := (List.cons.inj hbody).1
          cases hfirst
      | plain s =>
          obtain ⟨lines, hlines, hcontent⟩ :=
            (hlegible.section_legible (.plain s) (by simp [hsections])).closed
          change s.content = closeLines lines at hcontent
          rw [Section.parts, hcontent, lines_close_lines hlines] at hbody
          cases lines with
          | nil =>
              -- An empty plain section is followed by a tracked one, if by any.
              rcases sections_plain_cons hsections with rfl | ⟨t, others', rfl⟩
              · cases hbody
              · obtain rfl := (List.cons.inj hbody).1
                cases hfirst
          | cons l lines =>
              obtain rfl := (List.cons.inj hbody).1
              have hl : isHashbang l = true := hfirst
              have hfirstLine := first_line_close_lines (hlines l List.mem_cons_self) lines
              rw [← hcontent] at hfirstLine
              simp [hashbang?, hsections, hfirstLine, hl]

/-- A document whose first part names an interpreter has that hashbang, so that the properties stand
behind it. -/
def ShowsHashbang (d : Document) : Prop :=
  ∀ first rest, d.body = first :: rest → first.isHashbang = true → d.hashbang? ≠ none

/-- The parts of a document are its properties and the parts of its sections as they are arranged. -/
theorem Legible.parts_eq_arrange {d : Document} (h : d.Legible) (hshows : d.ShowsHashbang) :
    d.parts = Part.arrange d.propertyParts d.body := by
  cases hhashbang : d.hashbang? with
  | none =>
      rw [parts, hhashbang]
      dsimp only
      cases hbody : d.body with
      | nil => simp [Part.arrange]
      | cons first rest =>
          have hfirst : ¬ first.isHashbang = true := fun hfirst =>
            hshows first rest hbody hfirst hhashbang
          rw [Part.arrange, if_neg hfirst]
  | some line =>
      have hclosed : ∀ s ∈ d.sections, s.Closed := fun s hs => (h.section_legible s hs).closed
      have hfirst : (Part.line line).isHashbang = true := (hashbang_eq_some hclosed hhashbang).1
      obtain ⟨rest, hbody⟩ := body_of_hashbang hclosed hhashbang
      rw [parts, hhashbang, hbody]
      dsimp only
      rw [Part.arrange, if_pos hfirst]

/-- A file shows its hashbang. -/
theorem shows_hashbang_of_lines (hline : ∀ l ∈ ls, IsLine l) :
    (ofLines commentPrefix path finalNewline ls).1.ShowsHashbang :=
  fun _ _ hbody hfirst => hashbang_of_body hline hbody hfirst

/-- The parts of a file are its properties and the parts of its sections as they are arranged. -/
theorem parts_eq_arrange (hline : ∀ l ∈ ls, IsLine l) :
    (ofLines commentPrefix path finalNewline ls).1.parts =
      Part.arrange (ofLines commentPrefix path finalNewline ls).1.propertyParts
        (ofLines commentPrefix path finalNewline ls).1.body :=
  (legible_of_lines commentPrefix path finalNewline hline).parts_eq_arrange
    (shows_hashbang_of_lines hline)

/-- The properties of a document can be found among its parts. -/
theorem properties_parts (d : Document) : Part.properties d.parts = d.propertyParts := by
  rw [Part.properties, find_argument_parts, find_argument_parts, propertyParts]
  cases d.target <;> cases d.permissionsArgument <;> rfl

/-- The parts of a document that shows its hashbang are arranged. -/
theorem Legible.arranged_parts {d : Document} (h : d.Legible) (hshows : d.ShowsHashbang) :
    Part.Arranged d.parts := by
  rw [Part.Arranged, properties_parts, filter_parts, h.parts_eq_arrange hshows]

/-- The parts of a file are arranged. -/
theorem arranged_parts (hline : ∀ l ∈ ls, IsLine l) :
    Part.Arranged (ofLines commentPrefix path finalNewline ls).1.parts :=
  (legible_of_lines commentPrefix path finalNewline hline).arranged_parts
    (shows_hashbang_of_lines hline)

/-- Readable parts that are arranged are read back as they are. -/
theorem parts_reread {parts : List Part} (hreadable : Part.Readable commentPrefix parts)
    (harranged : Part.Arranged parts) :
    (ofLines commentPrefix path finalNewline (Part.linesOf commentPrefix parts)).1.parts =
      parts := by
  have hproperties : (ofLines commentPrefix path finalNewline
      (Part.linesOf commentPrefix parts)).1.propertyParts = Part.properties parts := by
    rw [Part.properties, ← hreadable.property_marks_from .target 1,
      ← hreadable.property_marks_from .permissions 1, ← markers_of_read_lines]
    rfl
  have hbody := hreadable.parts_of_lines path finalNewline
  rw [parts_eq_arrange hreadable.is_line, hproperties, body, hbody]
  exact harranged

/-- A file that was written, read and written again stays as it is. -/
theorem write_write (commentPrefix : Text) (path path' : Option Path) (t : Text) :
    (ofText commentPrefix path' (ofText commentPrefix path t).1.write).1.write =
      (ofText commentPrefix path t).1.write := by
  have harranged : Part.Arranged (ofText commentPrefix path t).1.parts :=
    arranged_parts fun l hl => is_line_of_mem_lines hl
  obtain ⟨kept, closed, hread, hreadable, hwrite, hkept⟩ :=
    (legible_of_text commentPrefix path t).reread path'
  have hkeptArranged : Part.Arranged kept := by
    rcases hkept with rfl | hconcat
    · exact harranged
    · exact Part.Arranged.of_concat (hconcat ▸ harranged)
  have hlegible := legible_of_lines commentPrefix path' closed hreadable.is_line
  calc (ofText commentPrefix path' (ofText commentPrefix path t).1.write).1.write
      = (ofLines commentPrefix path' closed (Part.linesOf commentPrefix kept)).1.write :=
        congrArg (·.1.write) hread
    _ = Part.write commentPrefix closed
          (ofLines commentPrefix path' closed (Part.linesOf commentPrefix kept)).1.parts :=
        hlegible.write_eq
    _ = Part.write commentPrefix closed kept :=
        congrArg (Part.write commentPrefix closed) (parts_reread hreadable hkeptArranged)
    _ = (ofText commentPrefix path t).1.write := hwrite

end Document

end TrackedSections
