import TrackedSections.Proofs.Document.Canonical

/-!
# Sections in place

`InPlace` says that sections have the ranges that they get when their file is written and read: each
begins after the one before it and has as many lines as are written for it, and the properties of the
file lie in the first one. Read `in_place_of_lines` first: the sections of a file whose parts are in order
are in place. Conversely, `in_place_unique` says that sections in place are known from what is written
for them.
-/

namespace TrackedSections

open Text Assembly

/-- `InPlace k start sections` says that sections are in place from the line `start` on. The first one is
plain and has `k` lines more than its content if `k` is not zero. -/
inductive InPlace : Nat → Int → List Section → Prop where
  | nil (start : Int) : InPlace 0 start []
  | plain {k : Nat} {start : Int} {s : Plain} {rest : List Section} (hfirst : s.first = start)
      (hlast : s.last = start + k + s.content.count '\n' - 1) (hforward : start ≤ s.last)
      (hnext : ∀ t ∈ rest.head?, t.tracked? ≠ none) (hrest : InPlace 0 (s.last + 1) rest) :
      InPlace k start (.plain s :: rest)
  | tracked {start : Int} {s : Tracked} {rest : List Section} (hfirst : s.first = start)
      (hlast : s.last = start + s.lineCount - 1) (hrest : InPlace 0 (s.last + 1) rest) :
      InPlace 0 start (.tracked s :: rest)

/-- Closed lines have as many line feeds as they are. -/
theorem Text.count_close_lines {ls : List Text} (h : ∀ l ∈ ls, IsLine l) :
    (closeLines ls).count '\n' = ls.length := by
  induction ls with
  | nil => rfl
  | cons l ls ih =>
      obtain ⟨hl, hls⟩ := List.forall_mem_cons.1 h
      rw [close_lines_cons, List.count_append, ih hls, closeLine, List.count_append,
        List.count_eq_zero_of_not_mem hl, List.length_cons, List.count_singleton_self]
      omega

/-! ## Sections that are read from parts -/

namespace Part

variable {commentPrefix : Text} {parts : List Part}

/-- No property stands after a block. -/
def PropertiesLead : List Part → Prop
  | [] => True
  | .line _ :: rest | .property _ _ :: rest => PropertiesLead rest
  | .block _ :: rest => ∀ p ∈ rest, p.isBody = true

/-- The number of properties among some parts. -/
def propertyCount (parts : List Part) : Nat := parts.countP (!·.isBody)

/-- Parts without properties have none after a block. -/
theorem properties_lead_of_body (h : ∀ p ∈ parts, p.isBody = true) : PropertiesLead parts := by
  induction parts with
  | nil => trivial
  | cons p parts ih =>
      obtain ⟨hp, hparts⟩ := List.forall_mem_cons.1 h
      cases p with
      | line text => exact ih hparts
      | property kind argument => cases hp
      | block b => exact hparts

/-- Properties and lines may come before such parts. -/
theorem properties_lead_append {before : List Part} (hbefore : ∀ p ∈ before, p.block? = none)
    (h : PropertiesLead parts) : PropertiesLead (before ++ parts) := by
  induction before with
  | nil => exact h
  | cons p before ih =>
      obtain ⟨hp, hrest⟩ := List.forall_mem_cons.1 hbefore
      cases p with
      | line text | property kind argument => exact ih hrest
      | block b => cases hp

/-- Parts that are arranged have no property after a block. -/
theorem Arranged.properties_lead (h : Arranged parts) : PropertiesLead parts := by
  have hproperties : ∀ p ∈ properties parts, p.block? = none := by
    intro p hp
    rw [properties, List.mem_append, Option.mem_toList, Option.mem_toList] at hp
    rcases hp with hp | hp <;> obtain ⟨argument, -, rfl⟩ := Option.map_eq_some_iff.1 hp <;> rfl
  have hbody : ∀ p ∈ parts.filter isBody, p.isBody = true := fun p hp => (List.mem_filter.1 hp).2
  rw [Arranged] at h
  rw [← h]
  generalize properties parts = properties at hproperties
  cases hcases : parts.filter isBody with
  | nil =>
      rw [arrange, ← List.append_nil properties]
      exact properties_lead_append hproperties trivial
  | cons first rest =>
      rw [hcases] at hbody
      rw [arrange]
      split
      · next hfirst =>
          cases first with
          | line text =>
              exact properties_lead_append hproperties
                (properties_lead_of_body (List.forall_mem_cons.1 hbody).2)
          | property kind argument | block b => cases hfirst
      · exact properties_lead_append hproperties (properties_lead_of_body hbody)

end Part

/-- The section of a block that can be read back has as many lines as the block. -/
theorem Block.Valid.line_count_section {commentPrefix : Text} {b : Block} (h : b.Valid commentPrefix)
    (start : Int) : (b.section start).lineCount = b.size := by
  have hcount := count_close_lines h.content_line
  rw [Tracked.lineCount, Block.size, Block.headSize]
  change (if b.source.isSome then 4 else 3) + (closeLines b.content).count '\n' = _
  rw [hcount]
  cases b.source <;> simp <;> omega

/-- Sections that follow a plain one in place are in place with it, if they begin with a tracked one. -/
theorem in_place_plain_from {cursor next : Int} {k : Nat} {waiting : List Text} {rest : List Section}
    (hline : ∀ l ∈ waiting, IsLine l) (hk : cursor + k + waiting.length = next)
    (hnext : ∀ t ∈ rest.head?, t.tracked? ≠ none) (hrest : InPlace 0 next rest) :
    InPlace k cursor (Part.plainFrom cursor next waiting ++ rest) := by
  unfold Part.plainFrom plainOf
  split
  · next hroom =>
      have hcount := count_close_lines hline
      refine .plain rfl ?_ hroom hnext ?_
      · change next - 1 = cursor + k + (([] ++ closeLines waiting).count '\n' : Nat) - 1
        rw [List.nil_append, hcount]
        omega
      · rwa [Int.sub_add_cancel]
  · obtain rfl : k = 0 := by omega
    obtain rfl : next = cursor := by omega
    exact hrest

/-- The sections of readable parts of which no property stands after a block are in place. Content lines and
properties before the first part that still wait for their section lie in the first one. -/
theorem in_place_sections_from {commentPrefix : Text} {parts : List Part}
    (h : Part.Readable commentPrefix parts) (hlead : Part.PropertiesLead parts) {cursor start : Int}
    {waiting : List Text} {k : Nat} (hline : ∀ l ∈ waiting, IsLine l)
    (hk : cursor + k + waiting.length = start) :
    InPlace (k + Part.propertyCount parts) cursor (Part.sectionsFrom cursor start waiting parts) := by
  -- As in `Part.Readable.parts_sections_from`, the lines that wait vary, and so do the properties.
  induction parts generalizing cursor start waiting k with
  | nil =>
      have hplain := in_place_plain_from hline hk (by simp) (.nil start)
      rwa [List.append_nil] at hplain
  | cons p parts ih =>
      cases p with
      | line text =>
          have htext : IsLine text := by
            cases h.head with
            | line htext hcontent => exact htext
          have hlines : ∀ l ∈ waiting ++ [text], IsLine l :=
            List.forall_mem_append.2 ⟨hline, List.forall_mem_singleton.2 htext⟩
          have hnext : cursor + k + (waiting ++ [text]).length = start + 1 := by
            rw [List.length_append, List.length_singleton]
            omega
          have hcount : Part.propertyCount (.line text :: parts) = Part.propertyCount parts :=
            List.countP_cons_of_neg (by simp [Part.isBody])
          rw [hcount]
          exact ih h.tail hlead hlines hnext
      | property kind argument =>
          have hnext : cursor + (k + 1 : Nat) + waiting.length = start + 1 := by omega
          have hcount : Part.propertyCount (.property kind argument :: parts) =
              Part.propertyCount parts + 1 := List.countP_cons_of_pos (by rfl)
          rw [hcount, Nat.add_comm (Part.propertyCount parts), ← Nat.add_assoc]
          exact ih h.tail hlead hline hnext
      | block b =>
          have hb : b.Valid commentPrefix := by
            cases h.head with
            | block hblock => exact hblock
          have hnone : Part.propertyCount parts = 0 :=
            List.countP_eq_zero.2 fun p hp => by simp [hlead p hp]
          have hcount : Part.propertyCount (.block b :: parts) = 0 := hnone
          have hnext : (b.section start).last + 1 = start + b.size := by
            change start + (b.size : Int) - 1 + 1 = _
            omega
          have hrest : InPlace (0 + Part.propertyCount parts) (start + b.size)
              (Part.sectionsFrom (start + b.size) (start + b.size) [] parts) :=
            ih h.tail (Part.properties_lead_of_body hlead) (List.forall_mem_nil _) (by simp)
          rw [hnone, ← hnext] at hrest
          have hplaced := InPlace.tracked rfl (by rw [hb.line_count_section]; rfl) hrest
          rw [hnext] at hplaced
          rw [hcount]
          exact in_place_plain_from hline hk (by simp [Section.tracked?]) hplaced

/-- The sections of a file are in place when its parts can be read back and no property stands after a block. -/
theorem in_place_of_lines {commentPrefix : Text} {parts : List Part} (h : Part.Readable commentPrefix parts)
    (hlead : Part.PropertiesLead parts) (path : Option Path) (finalNewline : Bool) :
    InPlace (Part.propertyCount parts) 1 (Document.ofLines commentPrefix path finalNewline
      (Part.linesOf commentPrefix parts)).1.sections := by
  have hplaced := in_place_sections_from h hlead (List.forall_mem_nil _)
    (show (1 : Int) + (0 : Nat) + ([] : List Text).length = 1 by simp)
  rw [Nat.zero_add] at hplaced
  rw [h.sections_of_lines]
  exact hplaced

/-! ## Sections that are known from their parts -/

/-- Content lines before parts that begin with a block are known from all of them. -/
theorem line_append_inj {ls ls' : List Text} {parts parts' : List Part}
    (hparts : ∀ p ∈ parts.head?, p.block? ≠ none) (hparts' : ∀ p ∈ parts'.head?, p.block? ≠ none)
    (h : ls.map Part.line ++ parts = ls'.map Part.line ++ parts') : ls = ls' ∧ parts = parts' := by
  induction ls generalizing ls' with
  | nil =>
      cases ls' with
      | nil => exact ⟨rfl, h⟩
      | cons l' ls' => exact absurd rfl (hparts (.line l') (by rw [show parts = _ from h]; rfl))
  | cons l ls ih =>
      cases ls' with
      | nil => exact absurd rfl (hparts' (.line l) (by rw [← show _ = parts' from h]; rfl))
      | cons l' ls' =>
          obtain ⟨hl, hrest⟩ := List.cons.inj h
          obtain ⟨rfl, rfl⟩ := ih hrest
          exact ⟨by rw [Part.line.inj hl], rfl⟩

/-- A plain section in place that has no more lines than its content has some content. -/
theorem InPlace.exists_line {start : Int} {s : Plain} {rest : List Section}
    (h : InPlace 0 start (.plain s :: rest)) (hclosed : (Section.plain s).Closed) :
    ∃ l ls, s.content.lines.1 = l :: ls := by
  cases h with
  | plain hfirst hlast hforward hnext hrest =>
      refine List.exists_cons_of_ne_nil fun hnil => ?_
      have hcontent : closeLines s.content.lines.1 = s.content := hclosed.close_lines_content
      rw [hnil] at hcontent
      rw [← hcontent] at hlast
      simp only [closeLines, List.flatMap_nil, List.count_nil] at hlast
      omega

/-- Sections that begin with a tracked one have parts that begin with a block. -/
theorem block_of_next {rest : List Section} (h : ∀ t ∈ rest.head?, t.tracked? ≠ none) :
    ∀ p ∈ (rest.flatMap Section.parts).head?, p.block? ≠ none := by
  cases rest with
  | nil => exact fun _ hp => nomatch hp
  | cons t rest =>
      cases t with
      | plain t => exact absurd rfl (h (.plain t) rfl)
      | tracked t =>
          intro p hp
          obtain rfl := Option.some.inj hp
          exact nofun

/-- Tracked sections with one range are the same when they can be read back as one block. -/
theorem Section.Legible.eq_of_block {commentPrefix : Text} {s t : Tracked}
    (hs : (Section.tracked s).Legible commentPrefix) (ht : (Section.tracked t).Legible commentPrefix)
    (hblock : s.block = t.block) (hfirst : s.first = t.first)
    (hlast : s.lineCount = t.lineCount → s.last = t.last) : s = t := by
  obtain ⟨hname, haccepted, hsource, hlines⟩ := Block.mk.inj hblock
  have hcontent : s.content = t.content :=
    hs.closed.close_lines_content.symm.trans ((congrArg closeLines hlines).trans ht.closed.close_lines_content)
  have hcurrent : s.current = t.current := by
    rw [hs.current_eq s rfl, ht.current_eq t rfl, hcontent]
  have hlast := hlast (by rw [Tracked.lineCount, Tracked.lineCount, hsource, hcontent])
  cases s
  cases t
  simp_all

/-- Sections in place are the same when they are written as the same parts, which can be read back. -/
theorem in_place_unique {commentPrefix : Text} {k : Nat} {start : Int} {sections sections' : List Section}
    (h : InPlace k start sections) (h' : InPlace k start sections')
    (hlegible : ∀ s ∈ sections, s.Legible commentPrefix)
    (hlegible' : ∀ s ∈ sections', s.Legible commentPrefix)
    (hparts : sections.flatMap Section.parts = sections'.flatMap Section.parts) :
    sections = sections' := by
  induction h generalizing sections' with
  | nil start =>
      cases h' with
      | nil => rfl
      | @plain _ _ s _ hfirst hlast hforward hnext hrest =>
          obtain ⟨l, ls, hlines⟩ := (InPlace.plain hfirst hlast hforward hnext hrest).exists_line
            (hlegible' _ List.mem_cons_self).closed
          rw [List.flatMap_cons, Section.parts, hlines] at hparts
          cases hparts
      | tracked => cases hparts
  | @plain k start s rest hfirst hlast hforward hnext hrest ih =>
      obtain ⟨hs, hothers⟩ := List.forall_mem_cons.1 hlegible
      cases h' with
      | nil =>
          obtain ⟨l, ls, hlines⟩ := (InPlace.plain hfirst hlast hforward hnext hrest).exists_line hs.closed
          rw [List.flatMap_cons, Section.parts, hlines] at hparts
          cases hparts
      | @plain _ _ s' rest' hfirst' hlast' hforward' hnext' hrest' =>
          obtain ⟨hs', hothers'⟩ := List.forall_mem_cons.1 hlegible'
          rw [List.flatMap_cons, List.flatMap_cons] at hparts
          obtain ⟨hlines, hparts⟩ := line_append_inj (block_of_next hnext) (block_of_next hnext') hparts
          have hcontent : s.content = s'.content := hs.closed.close_lines_content.symm.trans
            ((congrArg closeLines hlines).trans hs'.closed.close_lines_content)
          have hend : s.last = s'.last := by rw [hlast, hlast', hcontent]
          have hsame : s = s' := by
            cases s
            cases s'
            simp_all
          rw [← hend] at hrest'
          rw [hsame, ih hrest' hothers hothers' hparts]
      | tracked hfirst' hlast' hrest' =>
          obtain ⟨l, ls, hlines⟩ := (InPlace.plain hfirst hlast hforward hnext hrest).exists_line hs.closed
          rw [List.flatMap_cons, Section.parts, hlines] at hparts
          cases hparts
  | @tracked start s rest hfirst hlast hrest ih =>
      obtain ⟨hs, hothers⟩ := List.forall_mem_cons.1 hlegible
      cases h' with
      | nil => cases hparts
      | @plain _ _ s' rest' hfirst' hlast' hforward' hnext' hrest' =>
          obtain ⟨l, ls, hlines⟩ := (InPlace.plain hfirst' hlast' hforward' hnext' hrest').exists_line
            (hlegible' _ List.mem_cons_self).closed
          rw [List.flatMap_cons, List.flatMap_cons, Section.parts, Section.parts, hlines] at hparts
          cases hparts
      | @tracked _ s' rest' hfirst' hlast' hrest' =>
          obtain ⟨hs', hothers'⟩ := List.forall_mem_cons.1 hlegible'
          obtain ⟨hblock, hlater⟩ := List.cons.inj hparts
          obtain rfl := hs.eq_of_block hs' (Part.block.inj hblock) (hfirst.trans hfirst'.symm)
            fun hcount => by rw [hlast, hlast', hcount]
          rw [ih hrest' hothers hothers' hlater]

end TrackedSections
