import Mathlib.Data.List.Forall2
import TrackedSections.Proofs.Merge.Overlay
import TrackedSections.Proofs.Merge.Sound

/-!
# Taking what changes the text

A document that was read and takes sections is written as the text that it had exactly if each section
that takes another one `Has` all of it already. Read `Took.write_eq_iff` first. The lines of a block can
be told from what follows them (`Block.Valid.eq_of_lines`), as its end marker stands in the file only
once; this needs nothing of the content that is taken, which may have any lines.
-/

namespace TrackedSections

open Text Assembly

/-! ## Lines -/

/-- A text with lines is known from what it is without the line feed at its end. -/
theorem Text.close_lines_eq_of_open_last_line {ls ls' : List Text} (hls : ls ≠ []) (hls' : ls' ≠ [])
    (h : Document.openLastLine (closeLines ls) = Document.openLastLine (closeLines ls')) :
    closeLines ls = closeLines ls' := by
  have hclosed (front : List Text) (l : Text) : closeLines (front ++ [l]) =
      Document.openLastLine (closeLines (front ++ [l])) ++ ['\n'] := by
    rw [open_last_line_close_lines, close_lines_append, close_lines_cons, closeLine]
    simp [closeLines]
  obtain ⟨front, l, rfl⟩ := (List.eq_nil_or_concat' ls).resolve_left hls
  obtain ⟨front', l', rfl⟩ := (List.eq_nil_or_concat' ls').resolve_left hls'
  rw [hclosed front l, hclosed front' l', h]

/-- Lines are known from the text that they are written as. -/
theorem Text.close_lines_inj {ls ls' : List Text} (hls : ∀ l ∈ ls, IsLine l) (hls' : ∀ l ∈ ls', IsLine l)
    (h : closeLines ls = closeLines ls') : ls = ls' := by
  have hlines := congrArg lines h
  rw [lines_close_lines hls, lines_close_lines hls'] at hlines
  exact (Prod.mk.inj hlines).1

variable {commentPrefix : Text}

/-- Canonical lines of one kind and name are told apart by their words. -/
theorem Marker.row_argument_inj {kind : MarkerKind} {name word word' : Text}
    (h : row commentPrefix kind name (some word) = row commentPrefix kind name (some word')) :
    word = word' := by
  simpa [row] using h

/-- An end marker is well-formed under any name that is a word. -/
theorem Marker.well_formed_stop {name : Text} (hword : IsWord name) (line : Int) :
    (⟨line, name, .stop, none⟩ : Marker).WellFormed :=
  ⟨hword, by simp, rfl⟩

/-- A canonical line on some lines is one of their markers. -/
theorem Assembly.exists_mem_marks_from (hne : commentPrefix ≠ []) {kind : MarkerKind} {name : Text}
    {argument : Option Text} (hm : ∀ line, (⟨line, name, kind, argument⟩ : Marker).WellFormed)
    {ls : List Text} (h : Marker.row commentPrefix kind name argument ∈ ls) (start : Int) :
    ∃ m ∈ marksFrom commentPrefix start ls, m.scope = name ∧ m.kind = kind := by
  obtain ⟨before, after, rfl⟩ := List.append_of_mem h
  rw [marks_from_append, marks_from_row_cons hne (hm (start + before.length))]
  exact ⟨_, List.mem_append_right _ List.mem_cons_self, rfl, rfl⟩

/-! ## Blocks -/

namespace Block

variable {b b' : Block}

/-- The end marker of a block is none of its content lines. -/
theorem Valid.stop_not_mem_content (h : b.Valid commentPrefix) :
    Marker.row commentPrefix .stop b.name none ∉ b.content := by
  intro hmem
  obtain ⟨m, hm, -⟩ := exists_mem_marks_from h.ne_nil h.well_formed_stop hmem 1
  rw [marks_from_content h.content_is_content] at hm
  cases hm

/-- No source marker stands among the content lines of a block and its end marker. -/
theorem Valid.source_not_mem (h : b.Valid commentPrefix) {source : Text} (hword : IsWord source) :
    Marker.row commentPrefix .source b.name (some source) ∉
      b.content ++ [Marker.row commentPrefix .stop b.name none] := by
  intro hmem
  obtain ⟨m, hm, -, hkind⟩ := exists_mem_marks_from h.ne_nil
    (fun line => ⟨h.name_word, by simpa using hword, rfl⟩) hmem 1
  rw [marks_from_append, marks_from_content h.content_is_content, List.nil_append,
    marks_from_row_cons h.ne_nil (h.well_formed_stop _)] at hm
  obtain rfl := List.mem_singleton.1 hm
  cases hkind

/-- The end marker of another name is none of the lines of a block. -/
theorem Valid.stop_not_mem_lines (h : b.Valid commentPrefix) {name : Text} (hword : IsWord name)
    (hname : name ≠ b.name) : Marker.row commentPrefix .stop name none ∉ b.lines commentPrefix := by
  intro hmem
  obtain ⟨m, hm, hscope, -⟩ := exists_mem_marks_from h.ne_nil (Marker.well_formed_stop hword) hmem 1
  rw [marks_from_lines h] at hm
  exact hname (hscope.symm.trans (scope_of_mem_marks hm))

/-- A block that can be read back is known from the beginning of lines that name its end only once, among
blocks of its name that have a source if it has one. -/
theorem Valid.eq_of_lines (h : b.Valid commentPrefix) {rest rest' : List Text}
    (hlines : b.lines commentPrefix ++ rest = b'.lines commentPrefix ++ rest') (hname : b'.name = b.name)
    (hword : ∀ source ∈ b'.source, IsWord source)
    (hsource : b.source.isSome = true → b'.source.isSome = true)
    (hrest : Marker.row commentPrefix .stop b.name none ∉ rest) : b' = b ∧ rest = rest' := by
  obtain ⟨name, accepted, source, content⟩ := b
  obtain ⟨name', accepted', source', content'⟩ := b'
  obtain rfl : name' = name := hname
  simp only [lines, head, List.cons_append, List.append_assoc, List.nil_append, List.cons.injEq,
    true_and] at hlines
  obtain ⟨hhash, hlines⟩ := hlines
  obtain rfl := Marker.row_argument_inj hhash
  -- Behind the source, the end marker stands only at the end of the content.
  have hcontent (hlines : content ++ Marker.row commentPrefix .stop name' none :: rest =
      content' ++ Marker.row commentPrefix .stop name' none :: rest') :
      content = content' ∧ rest = rest' := by
    obtain ⟨hcontent, -, hrest⟩ :=
      (List.append_cons_inj_of_notMem h.stop_not_mem_content hrest).1 hlines
    exact ⟨hcontent, hrest⟩
  cases source with
  | none =>
      cases source' with
      | none =>
          obtain ⟨rfl, rfl⟩ := hcontent hlines
          exact ⟨rfl, rfl⟩
      | some source' =>
          have hmem : Marker.row commentPrefix .source name' (some source') ∈
              content ++ [Marker.row commentPrefix .stop name' none] := by
            cases content with
            | nil => exact List.mem_singleton.2 (List.cons.inj hlines).1.symm
            | cons l content => exact (List.cons.inj hlines).1 ▸ List.mem_cons_self
          exact absurd hmem (h.source_not_mem (hword source' rfl))
  | some source =>
      cases source' with
      | none => cases hsource rfl
      | some source' =>
          obtain ⟨hrow, hafter⟩ := List.cons.inj hlines
          obtain rfl := Marker.row_argument_inj hrow
          obtain ⟨rfl, rfl⟩ := hcontent hafter
          exact ⟨rfl, rfl⟩

end Block

/-! ## Sections -/

/-- A section has all of a candidate already: its content, its accepted digest and the source that it
names, if it names one. -/
structure Tracked.Has (s c : Tracked) : Prop where
  content_eq : c.content = s.content
  accepted_eq : c.accepted = s.accepted
  source_eq : c.source.or s.source = s.source

namespace Section

/-- The lines of a tracked section are those of its block. -/
theorem lines_of_tracked (commentPrefix : Text) (s : Tracked) :
    Part.linesOf commentPrefix (Section.tracked s).parts = s.block.lines commentPrefix :=
  List.append_nil _

/-- The lines of a sound section have no line feed in them. -/
theorem Sound.is_line (hline : IsLine commentPrefix) {s : Section} (h : s.Sound) :
    ∀ l ∈ Part.linesOf commentPrefix s.parts, IsLine l := by
  intro l hl
  obtain ⟨p, hp, hl⟩ := List.mem_flatMap.1 hl
  cases h with
  | @plain s hclosed =>
      obtain ⟨l', hl', rfl⟩ := List.mem_map.1 hp
      obtain rfl := List.mem_singleton.1 hl
      exact is_line_of_mem_lines hl'
  | @tracked s hsound =>
      obtain rfl := List.mem_singleton.1 hp
      have hrow {kind : MarkerKind} {argument : Option Text} (hargument : ∀ word ∈ argument, IsWord word)
          (hcheck : Marker.check kind s.name argument = none) :
          IsLine (Marker.row commentPrefix kind s.name argument) :=
        Marker.is_line_row hline (m := ⟨0, s.name, kind, argument⟩)
          ⟨hsound.name_word, hargument, hcheck⟩
      simp only [Part.lines, Block.lines, Block.head, Tracked.block, List.mem_append, List.mem_cons,
        List.mem_map, Option.mem_toList, List.not_mem_nil, or_false] at hl
      rcases hl with (rfl | rfl | ⟨source, hsource, rfl⟩) | hl | rfl
      · exact hrow (by simp) rfl
      · exact hrow (by simpa using hsound.accepted_word) rfl
      · exact hrow (by simpa using hsound.source_word source hsource) rfl
      · exact is_line_of_mem_lines hl
      · exact hrow (by simp) rfl

variable {pick : Tracked → Option Tracked}

/-- What becomes of a sound section that is offered sound ones is sound. -/
theorem Merged.sound {s merged : Section} (h : Merged (fun s c => pick s = some c) s merged)
    (hs : s.Sound) (hpick : ∀ s c, pick s = some c → c.Sound) : merged.Sound := by
  cases h with
  | plain s first last => exact .plain hs.closed
  | kept first last hnone =>
      have hs := hs.of_tracked
      exact .tracked ⟨hs.name_word, hs.name_ne_whole_file, hs.accepted_word, hs.source_word, hs.closed,
        hs.current_eq⟩
  | taken first last hoffer =>
      have htaken := hs.of_tracked.take (hpick _ _ hoffer)
      exact .tracked ⟨htaken.name_word, htaken.name_ne_whole_file, htaken.accepted_word,
        htaken.source_word, htaken.closed, htaken.current_eq⟩

end Section

namespace Document

variable {pick : Tracked → Option Tracked}

/-- The end marker of a name that no section has stands nowhere in the lines of legible sections. -/
theorem stop_not_mem_lines {sections : List Section} (hlegible : ∀ s ∈ sections, s.Legible commentPrefix)
    {name : Text} (hne : commentPrefix ≠ []) (hword : IsWord name) (hname : name ∉ namesOf sections) :
    Marker.row commentPrefix .stop name none ∉
      Part.linesOf commentPrefix (sections.flatMap Section.parts) := by
  intro hmem
  obtain ⟨p, hp, hmem⟩ := List.mem_flatMap.1 hmem
  obtain ⟨s, hs, hp⟩ := List.mem_flatMap.1 hp
  cases s with
  | plain s =>
      have hvalid := (hlegible _ hs).valid p hp
      obtain ⟨l, -, rfl⟩ := List.mem_map.1 hp
      obtain rfl := List.mem_singleton.1 hmem
      cases hvalid with
      | line hline hcontent =>
          obtain ⟨m, hm, -⟩ := exists_mem_marks_from hne (Marker.well_formed_stop hword)
            (List.mem_singleton_self _) 1
          rw [marks_from_content (List.forall_mem_singleton.2 hcontent)] at hm
          cases hm
  | tracked s =>
      obtain rfl := List.mem_singleton.1 hp
      have hvalid := (hlegible _ hs).block_valid
      refine hvalid.stop_not_mem_lines hword (fun heq => hname ?_) hmem
      exact heq ▸ name_mem_names_of (List.mem_filterMap.2 ⟨_, hs, rfl⟩)

/-- Of legible sections that are written as the same lines after each took what was picked for it, each had
that already. -/
theorem has_of_lines {sections merged : List Section}
    (h : List.Forall₂ (Section.Merged fun s c => pick s = some c) sections merged)
    (hlegible : ∀ s ∈ sections, s.Legible commentPrefix) (hnodup : (namesOf sections).Nodup)
    (hpick : ∀ s c, pick s = some c → c.Sound)
    (hlines : Part.linesOf commentPrefix (sections.flatMap Section.parts) =
      Part.linesOf commentPrefix (merged.flatMap Section.parts)) :
    ∀ s ∈ trackedOf sections, ∀ c, pick s = some c → s.Has c := by
  induction h with
  | nil => exact fun _ hs => (List.not_mem_nil hs).elim
  | @cons s merged rest mergedRest hmerged hrest ih =>
      obtain ⟨hs, hothers⟩ := List.forall_mem_cons.1 hlegible
      rw [List.flatMap_cons, List.flatMap_cons, Part.lines_of_append, Part.lines_of_append] at hlines
      cases hmerged with
      | plain s first last => exact ih hothers hnodup (List.append_cancel_left hlines)
      | @kept s first last hnone =>
          obtain ⟨-, hnodup⟩ := List.nodup_cons.1 hnodup
          refine List.forall_mem_cons.2 ⟨fun c hc => absurd hc (hnone c), ?_⟩
          exact ih hothers hnodup (List.append_cancel_left hlines)
      | @taken s c first last hoffer =>
          obtain ⟨hname, hnodup⟩ := List.nodup_cons.1 hnodup
          have hvalid := hs.block_valid
          have hsound := hpick s c hoffer
          have hstop : Marker.row commentPrefix .stop s.name none ∉
              Part.linesOf commentPrefix (rest.flatMap Section.parts) :=
            stop_not_mem_lines hothers hvalid.ne_nil hvalid.name_word hname
          rw [Section.lines_of_tracked, Section.lines_of_tracked] at hlines
          have hsome (h : s.source.isSome = true) : (c.source.or s.source).isSome = true := by
            rw [Option.isSome_or, h, Bool.or_true]
          obtain ⟨hblock, hlines⟩ := hvalid.eq_of_lines hlines rfl
            (hs.sound.of_tracked.take hsound).source_word hsome hstop
          obtain ⟨-, haccepted, hsource, hcontent⟩ := Block.mk.inj hblock
          refine List.forall_mem_cons.2 ⟨fun c' hc' => ?_, ih hothers hnodup hlines⟩
          obtain rfl := Option.some.inj (hoffer.symm.trans hc')
          refine ⟨?_, haccepted, hsource⟩
          calc c.content = closeLines c.content.lines.1 := hsound.closed.close_lines_content.symm
            _ = closeLines s.content.lines.1 := congrArg closeLines hcontent
            _ = s.content := hs.closed.close_lines_content

/-! ## Documents -/

/-- Documents with the same properties and the same hashbang that are written as the same lines have the same
lines in their sections. -/
theorem lines_body_eq {d e : Document} (hd : ∀ s ∈ d.sections, s.Closed)
    (he : ∀ s ∈ e.sections, s.Closed) (hproperties : e.propertyParts = d.propertyParts)
    (hhashbang : e.hashbang? = d.hashbang?)
    (hlines : Part.linesOf commentPrefix d.parts = Part.linesOf commentPrefix e.parts) :
    Part.linesOf commentPrefix d.body = Part.linesOf commentPrefix e.body := by
  cases hline : d.hashbang? with
  | none =>
      rw [parts, parts, hhashbang, hline, hproperties, Part.lines_of_append, Part.lines_of_append] at hlines
      exact List.append_cancel_left hlines
  | some line =>
      obtain ⟨rest, hbody⟩ := body_of_hashbang hd hline
      obtain ⟨rest', hbody'⟩ := body_of_hashbang he (hhashbang.trans hline)
      rw [parts, parts, hhashbang, hline, hbody, hbody', hproperties, Part.lines_of_cons,
        Part.lines_of_cons, Part.lines_of_append, Part.lines_of_append] at hlines
      rw [hbody, hbody', Part.lines_of_cons, Part.lines_of_cons,
        List.append_cancel_left (List.append_cancel_left hlines)]

/-- A document with a tracked section has lines. -/
theorem lines_parts_ne_nil {d : Document} (h : d.tracked ≠ []) :
    Part.linesOf commentPrefix d.parts ≠ [] := by
  intro hnil
  have hparts : d.parts = [] := by
    rw [Part.linesOf, List.flatMap_eq_nil_iff] at hnil
    refine List.eq_nil_iff_forall_not_mem.2 fun p hp => ?_
    have hp := hnil p hp
    cases p <;> simp [Part.lines, Block.lines] at hp
  have hblocks := d.blocks_parts
  rw [hparts] at hblocks
  exact h (List.map_eq_nil_iff.1 hblocks.symm)

/-- Documents with tracked sections that are written as the same text have the same text with its last line
closed. -/
theorem closed_text_eq_of_write {d e : Document} (hd : ∀ s ∈ d.sections, s.Closed)
    (he : ∀ s ∈ e.sections, s.Closed) (hsidecar : d.sidecar = none) (hsidecar' : e.sidecar = none)
    (hnewline : e.finalNewline = d.finalNewline) (htracked : d.tracked ≠ []) (hnames : e.names = d.names)
    (hwrite : e.write = d.write) :
    closeLines (Part.linesOf e.commentPrefix e.parts) =
      closeLines (Part.linesOf d.commentPrefix d.parts) := by
  have htracked' : e.tracked ≠ [] := by
    intro hnil
    rw [names, names, hnil] at hnames
    exact htracked (List.map_eq_nil_iff.1 hnames.symm)
  rw [write, write, hsidecar, hsidecar', hnewline, closed_text_eq hd, closed_text_eq he] at hwrite
  cases hfinal : d.finalNewline with
  | true => simpa [hfinal] using hwrite
  | false =>
      refine close_lines_eq_of_open_last_line (lines_parts_ne_nil htracked')
        (lines_parts_ne_nil htracked) ?_
      simpa [hfinal] using hwrite

/-- The parts of a document with sound sections are lines. -/
theorem is_line_parts {d : Document} (hline : IsLine d.commentPrefix)
    (hproperties : ∀ p ∈ d.propertyParts, p.Valid d.commentPrefix) (hsound : ∀ s ∈ d.sections, s.Sound) :
    ∀ l ∈ Part.linesOf d.commentPrefix d.parts, IsLine l := by
  intro l hl
  obtain ⟨p, hp, hl⟩ := List.mem_flatMap.1 hl
  obtain ⟨before, after, hbody, hparts⟩ := d.parts_split
  have hmem : p ∈ d.propertyParts ∨ p ∈ d.body := by
    rw [hparts] at hp
    rw [hbody]
    simp only [List.mem_append] at hp ⊢
    tauto
  rcases hmem with hp | hp
  · exact (hproperties p hp).is_line l hl
  · obtain ⟨s, hs, hp⟩ := List.mem_flatMap.1 hp
    exact (hsound s hs).is_line hline l (List.mem_flatMap.2 ⟨p, hp, hl⟩)

/-- A hashbang stays what it is when sections are taken. -/
theorem hashbang_of_merged {Offers : Tracked → Tracked → Prop} {d : Document} {sections : List Section}
    (h : List.Forall₂ (Section.Merged Offers) d.sections sections) :
    ({ d with sections } : Document).hashbang? = d.hashbang? := by
  unfold hashbang?
  generalize d.sections = before at h
  cases h with
  | nil => rfl
  | cons hmerged hrest => cases hmerged <;> rfl

/-- Sections keep their names when others are taken. -/
theorem names_of_merged {Offers : Tracked → Tracked → Prop} {sections merged : List Section}
    (h : List.Forall₂ (Section.Merged Offers) sections merged) : namesOf merged = namesOf sections := by
  induction h with
  | nil => rfl
  | cons hmerged hrest ih =>
      cases hmerged with
      | plain s first last => exact ih
      | @kept s first last hnone | @taken s c first last hoffer => exact congrArg (s.name :: ·) ih

/-- Sound sections stay sound when sound ones are taken. -/
theorem sound_of_merged {sections merged : List Section}
    (h : List.Forall₂ (Section.Merged fun s c => pick s = some c) sections merged)
    (hsound : ∀ s ∈ sections, s.Sound) (hpick : ∀ s c, pick s = some c → c.Sound) :
    ∀ s ∈ merged, s.Sound := by
  induction h with
  | nil => exact hsound
  | cons hmerged hrest ih =>
      obtain ⟨hs, hothers⟩ := List.forall_mem_cons.1 hsound
      exact List.forall_mem_cons.2 ⟨hmerged.sound hs hpick, ih hothers⟩

/-- Sections that have already what they take stay as they are, but for their places. -/
theorem unplaced_of_has {sections merged : List Section}
    (h : List.Forall₂ (Section.Merged fun s c => pick s = some c) sections merged)
    (hsound : ∀ s ∈ sections, s.Sound) (hpick : ∀ s c, pick s = some c → c.Sound)
    (hhas : ∀ s ∈ trackedOf sections, ∀ c, pick s = some c → s.Has c) :
    merged.map (·.unplaced) = sections.map (·.unplaced) := by
  induction h with
  | nil => rfl
  | @cons s merged rest mergedRest hmerged hrest ih =>
      obtain ⟨hs, hothers⟩ := List.forall_mem_cons.1 hsound
      rw [List.map_cons, List.map_cons]
      cases hmerged with
      | plain s first last => rw [ih hothers hhas, Section.unplaced, Section.unplaced]
      | kept first last hnone =>
          rw [ih hothers (List.forall_mem_cons.1 hhas).2]
          rfl
      | @taken s c first last hoffer =>
          obtain ⟨hhere, hhas⟩ := List.forall_mem_cons.1 hhas
          obtain ⟨hcontent, haccepted, hsource⟩ := hhere c hoffer
          have hcurrent : c.current = s.current := by
            rw [(hpick s c hoffer).current_eq, hs.of_tracked.current_eq, hcontent]
          rw [ih hothers hhas, hcontent, haccepted, hsource, hcurrent]
          rfl

/-- A legible document that took some candidates is written as the text that it had exactly if every section
that took one has all of it already. -/
theorem Took.write_eq_iff {target merged : Document} {candidates : List Tracked} {isChanged : Bool}
    (h : target.Took candidates merged isChanged) (hlegible : target.Legible)
    (hcandidates : ∀ c ∈ candidates, c.Sound) :
    merged.write = target.write ↔
      ∀ s ∈ target.tracked, ∀ c, picks candidates s = some c → s.Has c := by
  obtain ⟨rfl, -⟩ := h
  have hpick : ∀ s c, picks candidates s = some c → c.Sound := fun s c hc =>
    hcandidates c (picks_eq_some hc).1
  have hmerged : List.Forall₂ (Section.Merged fun s c => picks candidates s = some c) target.sections
      (target.taking candidates).sections := merged_of_overlay (fun _ _ _ => Iff.rfl) 0
  have hsound : ∀ s ∈ target.sections, s.Sound := fun s hs => (hlegible.section_legible s hs).sound
  refine ⟨fun hwrite s hs => ?_, fun hhas => write_of_unplaced (unplaced_of_has hmerged hsound hpick hhas)⟩
  have hline : IsLine target.commentPrefix :=
    (legible_of_mem_tracked (fun _ => ⟨hlegible, rfl⟩) hs).block_valid.is_line
  have hsound' := sound_of_merged hmerged hsound hpick
  have hclosed := fun s hs => (hsound s hs).closed
  have hclosed' := fun s hs => (hsound' s hs).closed
  have htext := closed_text_eq_of_write hclosed hclosed' hlegible.sidecar_eq_none hlegible.sidecar_eq_none
    rfl (List.ne_nil_of_mem hs) (names_of_merged hmerged) hwrite
  have hlines : Part.linesOf target.commentPrefix (target.taking candidates).parts =
      Part.linesOf target.commentPrefix target.parts :=
    close_lines_inj (is_line_parts (d := target.taking candidates) hline hlegible.property_valid hsound')
      (is_line_parts hline hlegible.property_valid hsound) htext
  exact has_of_lines hmerged hlegible.section_legible hlegible.nodup hpick
    (lines_body_eq hclosed hclosed' rfl (hashbang_of_merged hmerged) hlines.symm) s hs

end Document

end TrackedSections
