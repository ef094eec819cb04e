import TrackedSections.Proofs.Document.Legible
import TrackedSections.Proofs.Merge.Replacement

/-!
# Documents that take from each other stay legible

A legible document that takes a section or a whole source with the same comment prefix can be read
back as well (`apply_section_legible`, `apply_legible`).
-/

namespace TrackedSections

namespace Section

variable {commentPrefix : Text}

/-- A section that moves stays legible. -/
theorem Legible.shift {s : Section} (h : s.Legible commentPrefix) (delta : Int) :
    (s.shift delta).Legible commentPrefix := by
  cases s with
  | plain s => exact ⟨h.closed, h.valid, h.current_eq⟩
  | tracked s =>
      refine ⟨h.closed, h.valid, ?_⟩
      intro t ht
      obtain rfl := Option.some.inj ht
      exact h.current_eq s rfl

/-- A tracked section is legible when its block can be read back. -/
theorem Legible.block_valid {s : Tracked} (h : (Section.tracked s).Legible commentPrefix) :
    s.block.Valid commentPrefix := by
  cases h.valid (.block s.block) List.mem_cons_self with
  | block hblock => exact hblock

/-- A section that takes the content of a legible one stays legible. -/
theorem Legible.take {s candidate : Tracked} (h : (Section.tracked s).Legible commentPrefix)
    (hcandidate : (Section.tracked candidate).Legible commentPrefix) :
    (Section.tracked (s.take candidate)).Legible commentPrefix := by
  have hmine := h.block_valid
  have htheirs := hcandidate.block_valid
  refine ⟨hcandidate.closed, fun p hp => ?_, fun t ht => ?_⟩
  · obtain rfl := List.mem_singleton.1 hp
    refine .block ⟨htheirs.ne_nil, htheirs.is_line, hmine.name_word, hmine.name_ne_whole_file,
      htheirs.accepted_word, fun source hsource => ?_, htheirs.content_line,
      htheirs.content_is_content⟩
    rcases Option.or_eq_some_iff.1 hsource with hsource | ⟨-, hsource⟩
    · exact htheirs.source_word source hsource
    · exact hmine.source_word source hsource
  · obtain rfl := Option.some.inj ht
    exact hcandidate.current_eq candidate rfl

end Section

namespace Document

/-- Sections of which one is replaced stay legible. -/
theorem Replaces.legible {commentPrefix : Text} {candidate : Tracked}
    (hcandidate : (Section.tracked candidate).Legible commentPrefix)
    {sections replaced : List Section} (h : Replaces candidate sections replaced)
    (hsections : ∀ s ∈ sections, s.Legible commentPrefix) :
    ∀ s ∈ replaced, s.Legible commentPrefix := by
  induction h with
  | here hname hmodified =>
      obtain ⟨hs, hrest⟩ := List.forall_mem_cons.1 hsections
      refine List.forall_mem_cons.2 ⟨hs.take hcandidate, ?_⟩
      exact List.forall_mem_map.2 fun t ht => (hrest t ht).shift _
  | plain hrest ih | tracked hname hrest ih =>
      obtain ⟨hs, hlegible⟩ := List.forall_mem_cons.1 hsections
      exact List.forall_mem_cons.2 ⟨hs, ih hlegible⟩

/-- A legible document with other sections that are legible and have different names is legible. -/
theorem Legible.with_sections {d : Document} (h : d.Legible) {sections : List Section}
    (hsections : ∀ s ∈ sections, s.Legible d.commentPrefix) (hnames : (namesOf sections).Nodup)
    (markers : List Marker) : ({ d with sections, markers } : Document).Legible :=
  ⟨h.sidecar_eq_none, h.property_valid, hsections, hnames⟩

/-- A legible document stays legible when it takes a legible section. -/
theorem apply_section_legible {target : Document} (h : target.Legible) {candidate : Tracked}
    (hcandidate : (Section.tracked candidate).Legible target.commentPrefix) :
    (target.applySection candidate).target.Legible ∧
      (target.applySection candidate).target.commentPrefix = target.commentPrefix := by
  rcases apply_section_cases target candidate with ⟨hsame, -⟩ | ⟨-, sections, hreplaces, hdone, -⟩
  · rw [hsame]
    exact ⟨h, rfl⟩
  · rw [hdone]
    refine ⟨h.with_sections (hreplaces.legible hcandidate h.section_legible) ?_ target.markers, rfl⟩
    rw [hreplaces.names_eq]
    exact h.nodup

/-- A legible document stays legible when it takes legible sections one after another. -/
theorem apply_each_legible {target : Document} (h : target.Legible) {candidates : List Tracked}
    (hcandidates : ∀ c ∈ candidates, (Section.tracked c).Legible target.commentPrefix) :
    (target.applyEach candidates).1.Legible ∧
      (target.applyEach candidates).1.commentPrefix = target.commentPrefix := by
  refine apply_each_maintains
    (p := fun d => d.Legible ∧ d.commentPrefix = target.commentPrefix) ?_ ⟨h, rfl⟩
  rintro c hc d ⟨hlegible, hcomment⟩
  obtain ⟨hdone, hsame⟩ := apply_section_legible hlegible (hcomment ▸ hcandidates c hc)
  exact ⟨hdone, hsame.trans hcomment⟩

/-- A legible document stays legible when it takes from a legible source with its comment prefix. -/
theorem apply_legible {target source : Document} (htarget : target.Legible)
    (hsource : source.Legible) (hcomment : source.commentPrefix = target.commentPrefix) :
    (target.apply source).target.Legible ∧
      (target.apply source).target.commentPrefix = target.commentPrefix := by
  have hsections : ∀ s ∈ source.sections, s.Legible target.commentPrefix :=
    hcomment ▸ hsource.section_legible
  rcases apply_cases htarget.sidecar_eq_none source with ⟨hsame, -⟩ | ⟨-, -, hall⟩ | ⟨-, -, heach⟩
  · rw [hsame]
    exact ⟨htarget, rfl⟩
  · rw [hall]
    exact ⟨htarget.with_sections hsections hsource.nodup source.markers, rfl⟩
  · rw [heach]
    refine apply_each_legible htarget ?_
    intro c hc
    obtain ⟨s, hs, htracked⟩ := List.mem_filterMap.1 hc
    cases s with
    | plain s => cases htracked
    | tracked s =>
        obtain rfl := Option.some.inj htracked
        exact hsections _ hs

end Document

end TrackedSections
