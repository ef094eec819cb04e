import TrackedSections.Proofs.Merge.Sound

/-!
# Content from files with other comment prefixes

A source may have been read with another comment prefix than the target. What is content there may be a
marker in the target, which shows when the target is written and read again. `Document.Rereads` says
that the tracked sections and the properties of a document are read back. Read `Mixed.legible` first: a
document is read back if no line of its sections is a marker under its own comment prefix.
`foreign_content_rereads_iff` gives the exact condition for what a target took from any sources.
-/

namespace TrackedSections

open Text Effect

/-- No line of a section is a marker under a comment prefix. -/
def Section.IsContentFor (commentPrefix : Text) (s : Section) : Prop :=
  ∀ l ∈ s.content.lines.1, Marker.isContent commentPrefix l = true

namespace Section

variable {commentPrefix : Text}

/-- A section that can be read back has no markers in it. -/
theorem Legible.is_content {s : Section} (h : s.Legible commentPrefix) :
    s.IsContentFor commentPrefix := by
  cases s with
  | plain s =>
      intro l hl
      cases h.valid (.line l) (List.mem_map_of_mem hl) with
      | line hline hcontent => exact hcontent
  | tracked s => exact h.block_valid.content_is_content

/-- A sound section without markers in it can be read back. -/
theorem Sound.legible {s : Section} (h : s.Sound) (hcontent : s.IsContentFor commentPrefix)
    (hcomment : ∀ t, s = .tracked t → commentPrefix ≠ [] ∧ IsLine commentPrefix) :
    s.Legible commentPrefix := by
  cases h with
  | plain hclosed =>
      refine ⟨hclosed, fun p hp => ?_, fun t ht => nomatch ht⟩
      obtain ⟨l, hl, rfl⟩ := List.mem_map.1 hp
      exact .line (is_line_of_mem_lines hl) (hcontent l hl)
  | @tracked s hsound =>
      obtain ⟨hne, hline⟩ := hcomment s rfl
      refine ⟨hsound.closed, fun p hp => ?_, fun t ht => ?_⟩
      · obtain rfl := List.mem_singleton.1 hp
        exact .block ⟨hne, hline, hsound.name_word, hsound.name_ne_whole_file, hsound.accepted_word,
          hsound.source_word, fun l hl => is_line_of_mem_lines hl, hcontent⟩
      · obtain rfl := Option.some.inj ht
        exact hsound.current_eq

end Section

namespace Document

variable {commentPrefix : Text}

/-- Once the document is written, its tracked sections are read back in order with their names, contents
and accepted digests, and so are its target and its permissions. -/
def Rereads (d : Document) : Prop :=
  ∀ path, let reread := (ofText d.commentPrefix path d.write).1
    reread.tracked.map (fun s => (s.name, s.content, s.accepted)) =
      d.tracked.map (fun s => (s.name, s.content, s.accepted)) ∧
    reread.target = d.target ∧ reread.permissionsArgument = d.permissionsArgument

/-- A legible document is read back. -/
theorem Legible.rereads {d : Document} (h : d.Legible) : d.Rereads := by
  intro path
  have hunplaced := congrArg (List.map fun s : Tracked => (s.name, s.content, s.accepted))
    (h.unplaced_reread path)
  rw [List.map_map, List.map_map] at hunplaced
  exact ⟨hunplaced, h.properties_reread path⟩

/-- A document that is read back has no markers in its tracked sections, since nothing that was read
has. -/
theorem Rereads.is_content {d : Document} (h : d.Rereads) {s : Tracked} (hs : s ∈ d.tracked) :
    (Section.tracked s).IsContentFor d.commentPrefix := by
  obtain ⟨hsame, -⟩ := h none
  have hmem : (s.name, s.content, s.accepted) ∈
      (ofText d.commentPrefix none d.write).1.tracked.map
        fun s => (s.name, s.content, s.accepted) := by
    rw [hsame]
    exact List.mem_map_of_mem hs
  obtain ⟨t, ht, heq⟩ := List.mem_map.1 hmem
  have hcontent : t.content = s.content := (Prod.mk.inj (Prod.mk.inj heq).2).1
  have hlegible := legible_with_of_text d.commentPrefix none d.write
  have hread := (legible_of_mem_tracked (fun _ => hlegible) ht).is_content
  rw [Section.IsContentFor, Section.content, hcontent] at hread
  exact hread

/-- A document with a comment prefix whose sections may come from files with other ones. -/
structure Mixed (commentPrefix : Text) (d : Document) : Prop where
  comment_prefix_eq : d.commentPrefix = commentPrefix
  sidecar_eq_none : d.sidecar = none
  sound : d.Sound
  property_valid : ∀ p ∈ d.propertyParts, p.Valid commentPrefix
  prefix_valid : d.names ≠ [] → commentPrefix ≠ [] ∧ IsLine commentPrefix

/-- No plain section of a document has a marker in it. -/
def PlainContent (commentPrefix : Text) (d : Document) : Prop :=
  ∀ s, Section.plain s ∈ d.sections → (Section.plain s).IsContentFor commentPrefix

/-- A document with sections from elsewhere and no markers in its plain ones. -/
structure OwnPlain (commentPrefix : Text) (d : Document) : Prop where
  mixed : d.Mixed commentPrefix
  plain : d.PlainContent commentPrefix

/-- A legible document has no markers in its plain sections. -/
theorem LegibleWith.own_plain {d : Document} (h : d.LegibleWith commentPrefix) (hsound : d.Sound) :
    d.OwnPlain commentPrefix := by
  obtain ⟨hlegible, rfl⟩ := h
  refine ⟨⟨rfl, hlegible.sidecar_eq_none, hsound, hlegible.property_valid, fun hnames => ?_⟩,
    fun s hs => (hlegible.section_legible _ hs).is_content⟩
  obtain ⟨name, hname⟩ := List.exists_mem_of_ne_nil _ hnames
  obtain ⟨s, hs, -⟩ := List.mem_map.1 hname
  have hblock := (legible_of_mem_tracked (fun _ => ⟨hlegible, rfl⟩) hs).block_valid
  exact ⟨hblock.ne_nil, hblock.is_line⟩

/-- A document without markers in its sections can be read back. -/
theorem Mixed.legible {d : Document} (h : d.Mixed commentPrefix)
    (hcontent : ∀ s ∈ d.sections, s.IsContentFor commentPrefix) : d.Legible := by
  obtain ⟨rfl, hsidecar, hsound, hproperty, hcomment⟩ := h
  refine ⟨hsidecar, hproperty, fun s hs => ?_, hsound.orderly.nodup⟩
  refine (hsound.orderly.sound s hs).legible (hcontent s hs) ?_
  rintro t rfl
  exact hcomment (List.ne_nil_of_mem (List.mem_map_of_mem (List.mem_filterMap.2 ⟨_, hs, rfl⟩)))

/-- A document without markers in its plain sections is read back exactly when there are none in its
tracked ones. -/
theorem Mixed.rereads_iff {d : Document} (h : d.Mixed commentPrefix)
    (hplain : d.PlainContent commentPrefix) :
    d.Rereads ↔ ∀ s ∈ d.tracked, (Section.tracked s).IsContentFor commentPrefix := by
  constructor
  · intro hrereads s hs
    exact h.comment_prefix_eq ▸ hrereads.is_content hs
  · intro htracked
    refine (h.legible fun s hs => ?_).rereads
    cases s with
    | plain s => exact hplain s hs
    | tracked s => exact htracked s (List.mem_filterMap.2 ⟨_, hs, rfl⟩)

/-! ## Steps -/

/-- With other orderly sections a document is still one of its own comment prefix. -/
theorem Mixed.with_sections {d : Document} (h : d.Mixed commentPrefix) {sections : List Section}
    (horderly : Orderly sections) (hnames : namesOf sections ≠ [] → d.names ≠ [])
    (markers : List Marker) : ({ d with sections, markers } : Document).Mixed commentPrefix :=
  ⟨h.comment_prefix_eq, h.sidecar_eq_none, ⟨horderly, h.sound.sidecar_sound⟩, h.property_valid,
    fun hne => h.prefix_valid (hnames hne)⟩

/-- With one section replaced by a sound one a document is still one of its own comment prefix. -/
theorem Mixed.replaced {target : Document} (h : target.Mixed commentPrefix) {candidate : Tracked}
    (hcandidate : candidate.Sound) {sections : List Section}
    (hreplaces : Replaces candidate target.sections sections) :
    ({ target with sections } : Document).Mixed commentPrefix := by
  refine h.with_sections (h.sound.orderly.replaced hcandidate hreplaces) (fun hne => ?_) target.markers
  rw [hreplaces.names_eq] at hne
  exact hne

/-- A document that takes a sound section is still one of its own comment prefix. -/
theorem Mixed.apply_section {target : Document} (h : target.Mixed commentPrefix) {candidate : Tracked}
    (hcandidate : candidate.Sound) :
    (target.applySection candidate).target.Mixed commentPrefix := by
  rcases apply_section_cases target candidate with ⟨hsame, -⟩ | ⟨-, sections, hreplaces, hdone, -⟩
  · rw [hsame]
    exact h
  · rw [hdone]
    exact h.replaced hcandidate hreplaces

/-- A document that takes sound sections one after another is still one of its own comment prefix. -/
theorem Mixed.apply_each {target : Document} (h : target.Mixed commentPrefix) {candidates : List Tracked}
    (hcandidates : ∀ c ∈ candidates, c.Sound) : (target.applyEach candidates).1.Mixed commentPrefix :=
  apply_each_maintains (fun c hc _ hd => hd.apply_section (hcandidates c hc)) h

/-- A target without a sidecar that a source can be applied to has tracked sections. -/
theorem names_of_obstacle {target source : Document} (hsidecar : target.sidecar = none)
    (h : target.obstacle? source = none) : target.names ≠ [] := by
  intro hnames
  have htracked : target.tracked = [] := List.map_eq_nil_iff.1 hnames
  simp [obstacle?, hasSidecar, isManaged, hsidecar, htracked] at h

/-- A document that takes from a sound source is still one of its own comment prefix. -/
theorem Mixed.apply {target source : Document} (h : target.Mixed commentPrefix)
    (hsource : source.Sound) : (target.apply source).target.Mixed commentPrefix := by
  have hsidecar := h.sidecar_eq_none
  rcases apply_cases hsidecar source with ⟨hsame, -⟩ | ⟨hobstacle, -, hall⟩ | ⟨-, -, heach⟩
  · rw [hsame]
    exact h
  · rw [hall]
    exact h.with_sections hsource.orderly (fun _ => names_of_obstacle hsidecar hobstacle) source.markers
  · rw [heach]
    exact h.apply_each fun c hc => hsource.of_mem_tracked hc

/-- The plain sections are kept when a tracked one is replaced, if they move at all. -/
theorem Replaces.content_of_plain {candidate : Tracked} {sections replaced : List Section}
    (h : Replaces candidate sections replaced) {s : Plain} (hs : Section.plain s ∈ replaced) :
    ∃ t, Section.plain t ∈ sections ∧ t.content = s.content := by
  induction h with
  | @here s₀ rest hname hmodified =>
      rcases List.mem_cons.1 hs with hs | hs
      · cases hs
      · obtain ⟨t, ht, hshift⟩ := List.mem_map.1 hs
        cases t with
        | tracked t => cases hshift
        | plain t =>
            obtain rfl := Section.plain.inj hshift
            exact ⟨t, List.mem_cons_of_mem _ ht, rfl⟩
  | @plain s₀ rest replaced hrest ih =>
      rcases List.mem_cons.1 hs with hs | hs
      · obtain rfl := Section.plain.inj hs
        exact ⟨s, List.mem_cons_self, rfl⟩
      · obtain ⟨t, ht, hcontent⟩ := ih hs
        exact ⟨t, List.mem_cons_of_mem _ ht, hcontent⟩
  | @tracked s₀ rest replaced hname hrest ih =>
      rcases List.mem_cons.1 hs with hs | hs
      · cases hs
      · obtain ⟨t, ht, hcontent⟩ := ih hs
        exact ⟨t, List.mem_cons_of_mem _ ht, hcontent⟩

/-- Taking a sound section leaves the plain ones as they are. -/
theorem OwnPlain.apply_section {target : Document} (h : target.OwnPlain commentPrefix)
    {candidate : Tracked} (hcandidate : candidate.Sound) :
    (target.applySection candidate).target.OwnPlain commentPrefix := by
  rcases apply_section_cases target candidate with ⟨hsame, -⟩ | ⟨-, sections, hreplaces, hdone, -⟩
  · rw [hsame]
    exact h
  · rw [hdone]
    refine ⟨h.mixed.replaced hcandidate hreplaces, fun s hs => ?_⟩
    obtain ⟨t, ht, hcontent⟩ := hreplaces.content_of_plain hs
    have hplain := h.plain t ht
    rw [Section.IsContentFor, Section.content, hcontent] at hplain
    exact hplain

/-- Taking sound sections one after another leaves the plain ones as they are. -/
theorem OwnPlain.apply_each {target : Document} (h : target.OwnPlain commentPrefix)
    {candidates : List Tracked} (hcandidates : ∀ c ∈ candidates, c.Sound) :
    (target.applyEach candidates).1.OwnPlain commentPrefix :=
  apply_each_maintains (fun c hc _ hd => hd.apply_section (hcandidates c hc)) h

/-- Taking from a sound source leaves the plain sections as they are, or all sections are those of the
source then. -/
theorem OwnPlain.apply {target source : Document} (h : target.OwnPlain commentPrefix)
    (hsource : source.Sound) : (target.apply source).target.Mixed commentPrefix ∧
      ((target.apply source).target.PlainContent commentPrefix ∨
        (target.apply source).target.sections = source.sections) := by
  refine ⟨h.mixed.apply hsource, ?_⟩
  rcases apply_cases h.mixed.sidecar_eq_none source with ⟨hsame, -⟩ | ⟨-, -, hall⟩ | ⟨-, -, heach⟩
  · rw [hsame]
    exact .inl h.plain
  · rw [hall]
    exact .inr rfl
  · rw [heach]
    exact .inl (h.apply_each fun c hc => hsource.of_mem_tracked hc).plain

/-- Taking what is wanted from a sound source leaves the plain sections as they are, or all sections are
those of the source then. -/
theorem OwnPlain.take_from {target source : Document} (h : target.OwnPlain commentPrefix)
    (hsource : source.Sound) (cache : SourceCache) (wanted : List (Option Text)) (view : View) :
    let d := (target.update cache wanted (some source) view).2.target
    d.Mixed commentPrefix ∧
      (d.PlainContent commentPrefix ∨ d.sections = source.sections) := by
  dsimp only
  rw [Pulling.update_from_eq]
  split
  · have hown : (target.applyNamed source wanted).target.OwnPlain commentPrefix :=
      apply_named_maintains (fun c hc _ hd => hd.apply_section (hsource.of_mem_tracked hc)) h wanted
    exact ⟨hown.mixed, .inl hown.plain⟩
  · exact h.apply hsource

/-- Pulling from sources leaves the plain sections as they are. -/
theorem OwnPlain.pull {target : Document} (h : target.OwnPlain commentPrefix) {cache : SourceCache}
    (hcache : ∀ entry ∈ cache.documents, entry.2.Sound) (wanted : List (Option Text)) (view : View) :
    (target.update cache wanted none view).2.target.OwnPlain commentPrefix := by
  have hall : Maintains (Pulling.PullOf (OwnPlain commentPrefix) Document.Sound)
      (target.tracked.forM (Pulling.pullSection wanted)) :=
    maintains_for_m fun s _ => Pulling.maintains_pull_section sound_of_load
      (fun d e c hd he hc => hd.apply_section (he.of_mem_tracked hc)) wanted s
  rw [Pulling.update_eq h.mixed.sidecar_eq_none]
  exact (hall view ⟨target, cache, false, []⟩ ⟨h, hcache⟩).target

end Document

namespace Taking

/-- All documents that a step may take from have a property. -/
def TakesFrom (q : Document → Prop) : Taking → Prop
  | .oneSection candidate => ∃ source, q source ∧ candidate ∈ source.tracked
  | .document source => q source
  | .update cache _ source _ =>
    (∀ entry ∈ cache.documents, q entry.2) ∧ ∀ e, source = some e → q e

/-- The document whose sections a step may take all at once. -/
def whole? : Taking → Option Document
  | .oneSection _ => none
  | .document source => some source
  | .update _ _ source _ => source

/-- A step leaves the plain sections as they are, or all sections are those of one source then. -/
theorem run_mixed {commentPrefix : Text} {target : Document} (h : target.OwnPlain commentPrefix)
    {step : Taking} (hsources : step.TakesFrom Document.Sound) :
    (step.run target).Mixed commentPrefix ∧ ((step.run target).PlainContent commentPrefix ∨
      ∃ source, step.whole? = some source ∧ (step.run target).sections = source.sections) := by
  cases step with
  | oneSection candidate =>
      obtain ⟨source, hsource, hcandidate⟩ := hsources
      have hown := h.apply_section (hsource.of_mem_tracked hcandidate)
      exact ⟨hown.mixed, .inl hown.plain⟩
  | document source =>
      obtain ⟨hmixed, hplain⟩ := h.apply hsources
      exact ⟨hmixed, hplain.imp_right fun hall => ⟨source, rfl, hall⟩⟩
  | update cache wanted source view =>
      obtain ⟨hcache, hsource⟩ := hsources
      cases source with
      | none =>
          have hown := h.pull hcache wanted view
          exact ⟨hown.mixed, .inl hown.plain⟩
      | some source =>
          obtain ⟨hmixed, hplain⟩ := h.take_from (hsource source rfl) cache wanted view
          exact ⟨hmixed, hplain.imp_right fun hall => ⟨source, rfl, hall⟩⟩

end Taking

namespace Document

/-- What a target took from sources with any comment prefixes is read back only if no line of its tracked
sections is a marker under the comment prefix of the target, and whenever no line of its sections is
one. The first condition is exact unless all sections of a source were taken at once. -/
theorem foreign_content_rereads_iff (commentPrefix : Text) (path : Option Path) (t : Text)
    (isReadOnly : Bool) {step : Taking} (hsources : step.TakesFrom Arises) :
    let d := step.run { (ofText commentPrefix path t).1 with isReadOnly }
    (d.Rereads → ∀ s ∈ d.tracked, (Section.tracked s).IsContentFor commentPrefix) ∧
    ((∀ s ∈ d.sections, s.IsContentFor commentPrefix) → d.Rereads) ∧
    ((d.Rereads ↔ ∀ s ∈ d.tracked, (Section.tracked s).IsContentFor commentPrefix) ∨
      ∃ source, step.whole? = some source ∧ d.sections = source.sections) := by
  have hsound : step.TakesFrom Document.Sound := by
    cases step with
    | oneSection candidate =>
        obtain ⟨source, hsource, hcandidate⟩ := hsources
        exact ⟨source, hsource.sound, hcandidate⟩
    | document source => exact hsources.sound
    | update cache wanted source view =>
        exact ⟨fun entry hentry => (hsources.1 entry hentry).sound, fun e he => (hsources.2 e he).sound⟩
  have hlegible := (legible_with_of_text commentPrefix path t).with_read_only isReadOnly
  have hown := hlegible.own_plain (sound_of_text commentPrefix path t isReadOnly)
  obtain ⟨hrun, hcases⟩ := Taking.run_mixed hown hsound
  refine ⟨fun hrereads s hs => ?_, fun hcontent => (hrun.legible hcontent).rereads, ?_⟩
  · have hcontent := hrereads.is_content hs
    rw [hrun.comment_prefix_eq] at hcontent
    exact hcontent
  · exact hcases.imp_left hrun.rereads_iff

/-- The section of `sourcedTarget` is pulled from a file with a text and the comment prefix `//`. -/
def pullSlashed (sourceText : Text) : Taking :=
  .update (.empty (some ['/', '/']) .empty) [] none (filesOnly [(['f'], sourceText)])

/-- What the target `sourcedTarget` is after that. -/
def slashedPulled (sourceText : Text) : Document :=
  (pullSlashed sourceText).run { (ofText ['#'] none sourcedTarget).1 with isReadOnly := false }

/-- Nothing but the disk is taken from. -/
theorem takes_from_pull_slashed (sourceText : Text) : (pullSlashed sourceText).TakesFrom Arises :=
  ⟨fun _ h => (nomatch h), fun _ h => (nomatch h)⟩

/-- What was pulled from `slashedSource` is read back. -/
theorem slashed_source_rereads :
    (pullSlashed slashedSource).TakesFrom Arises ∧
      (slashedPulled slashedSource).tracked.map (·.content) = ["new\n".toList] ∧
      (∀ s ∈ (slashedPulled slashedSource).sections, s.IsContentFor ['#']) ∧
      (slashedPulled slashedSource).Rereads := by
  have hcontent : (slashedPulled slashedSource).tracked.map (·.content) = ["new\n".toList] ∧
      ∀ s ∈ (slashedPulled slashedSource).sections, ∀ l ∈ s.content.lines.1,
        Marker.isContent ['#'] l = true := by
    decide +kernel
  have hsources := takes_from_pull_slashed slashedSource
  obtain ⟨-, hrereads, -⟩ := foreign_content_rereads_iff ['#'] none sourcedTarget false hsources
  exact ⟨hsources, hcontent.1, hcontent.2, hrereads hcontent.2⟩

/-- A source with the comment prefix `//` whose section has a line that ends a section under `#`. -/
def markedSource : Text :=
  ("//... s begin\n//... s hash B5E5252D0869C767C2EDA3B39046FCEBC7324FF160D0838A21CE677F3B2A6328\n" ++
    "#... s end\n//... s end\n").toList

/-- Not everything that a target took is read back. -/
theorem marked_line_not_reread :
    ¬ ∀ (commentPrefix : Text) (path : Option Path) (t : Text) (step : Taking),
      step.TakesFrom Arises →
      (step.run { (ofText commentPrefix path t).1 with isReadOnly := false }).Rereads := by
  intro hall
  have hrereads : (slashedPulled markedSource).Rereads :=
    hall ['#'] none sourcedTarget (pullSlashed markedSource) (takes_from_pull_slashed markedSource)
  have hmarker : ∃ s ∈ (slashedPulled markedSource).tracked, ∃ l ∈ s.content.lines.1,
      Marker.isContent (slashedPulled markedSource).commentPrefix l = false := by
    decide +kernel
  obtain ⟨s, hs, l, hl, hfalse⟩ := hmarker
  have hcontent := hrereads.is_content hs l hl
  rw [hfalse] at hcontent
  cases hcontent

end Document

end TrackedSections
