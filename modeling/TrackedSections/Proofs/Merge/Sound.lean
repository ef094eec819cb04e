import TrackedSections.Proofs.Merge.Reachable
import TrackedSections.Proofs.Sidecar

/-!
# What holds of every document

`Document.Sound` is what a document has whatever comment prefix it was read with: its sections tile
lines, have different names and the digests of their contents, and its sidecar knows whether it is
modified. Each step keeps this (`Sound.accept`, `Sound.delete`, `Sound.apply_section`, `Sound.apply`,
`Sound.update`), so that `Arises.representation` holds of all documents that arise from reading files
and from taking from one another, with any comment prefixes.
-/

namespace TrackedSections

open Text Effect

/-! ## Sections -/

/-- What a tracked section has whatever the comment prefix is: its markers can be written, its content
is a sequence of closed lines and its digest is that of its content. -/
structure Tracked.Sound (s : Tracked) : Prop where
  name_word : IsWord s.name
  name_ne_whole_file : s.name ≠ Marker.wholeFile
  accepted_word : IsWord s.accepted
  source_word : ∀ source ∈ s.source, IsWord source
  closed : (Section.tracked s).Closed
  current_eq : s.current = Digest.ofText s.content

/-- A plain section has closed lines, and a tracked one is sound. -/
inductive Section.Sound : Section → Prop where
  | plain {s : Plain} (hclosed : (Section.plain s).Closed) : Section.Sound (.plain s)
  | tracked {s : Tracked} (hsound : s.Sound) : Section.Sound (.tracked s)

namespace Section

/-- A section that can be read back is sound. -/
theorem Legible.sound {commentPrefix : Text} {s : Section} (h : s.Legible commentPrefix) :
    s.Sound := by
  cases s with
  | plain s => exact .plain h.closed
  | tracked s =>
      have hblock := h.block_valid
      exact .tracked ⟨hblock.name_word, hblock.name_ne_whole_file, hblock.accepted_word,
        hblock.source_word, h.closed, h.current_eq s rfl⟩

/-- A tracked section that is sound. -/
theorem Sound.of_tracked {s : Tracked} (h : (Section.tracked s).Sound) : s.Sound := by
  cases h with
  | tracked hsound => exact hsound

/-- The lines of a sound section are closed. -/
theorem Sound.closed {s : Section} (h : s.Sound) : s.Closed := by
  cases h with
  | plain hclosed => exact hclosed
  | tracked hsound => exact hsound.closed

/-- Closed lines are none, or the last one ends in a line feed. -/
theorem Closed.content_cases {s : Section} (h : s.Closed) :
    s.content = [] ∨ s.content.getLast? = some '\n' := by
  obtain ⟨ls, -, hcontent⟩ := h
  rcases List.eq_nil_or_concat ls with rfl | ⟨ls, l, rfl⟩
  · exact .inl hcontent
  · right
    rw [hcontent, List.concat_eq_append, close_lines_append, close_lines_cons, closeLine]
    simp

/-- A sound section stays sound when its content is accepted. -/
theorem Sound.accept {s : Section} (h : s.Sound) : s.accept.Sound := by
  cases h with
  | plain hclosed => exact .plain hclosed
  | @tracked s hsound =>
      have hword : IsWord s.current := hsound.current_eq ▸ Digest.is_word_of_text s.content
      exact .tracked ⟨hsound.name_word, hsound.name_ne_whole_file, hword, hsound.source_word,
        hsound.closed, hsound.current_eq⟩

/-- A sound section that moves stays sound. -/
theorem Sound.shift {s : Section} (h : s.Sound) (delta : Int) : (s.shift delta).Sound := by
  cases h with
  | plain hclosed => exact .plain hclosed
  | tracked hsound =>
      exact .tracked ⟨hsound.name_word, hsound.name_ne_whole_file, hsound.accepted_word,
        hsound.source_word, hsound.closed, hsound.current_eq⟩

theorem first_shift (delta : Int) (s : Section) : (s.shift delta).first = s.first + delta := by
  cases s <;> rfl

theorem last_shift (delta : Int) (s : Section) : (s.shift delta).last = s.last + delta := by
  cases s <;> rfl

theorem first_accept (s : Section) : s.accept.first = s.first := by
  cases s <;> rfl

theorem last_accept (s : Section) : s.accept.last = s.last := by
  cases s <;> rfl

end Section

namespace Tracked

/-- A sound section that takes the content of another one stays sound. -/
theorem Sound.take {s candidate : Tracked} (h : s.Sound) (hcandidate : candidate.Sound) :
    (s.take candidate).Sound := by
  refine ⟨h.name_word, h.name_ne_whole_file, hcandidate.accepted_word, fun source hsource => ?_,
    hcandidate.closed, hcandidate.current_eq⟩
  rcases Option.or_eq_some_iff.1 hsource with hsource | ⟨-, hsource⟩
  · exact hcandidate.source_word source hsource
  · exact h.source_word source hsource

/-- A section that took some content ends where its markers do, so its range is not empty. -/
theorem forward_take (s candidate : Tracked) : (s.take candidate).Forward := by
  have hcount : 3 ≤ (s.take candidate).lineCount := by
    rw [lineCount]
    split <;> omega
  have hlast : (s.take candidate).last = s.first + (s.take candidate).lineCount - 1 := rfl
  have hfirst : (s.take candidate).first = s.first := rfl
  rw [Forward, hlast, hfirst]
  omega

end Tracked

/-- A tiling that moves is one of the lines it moved to. -/
theorem Tiles.shift {first last : Int} {sections : List Section} (h : Tiles first last sections)
    (delta : Int) : Tiles (first + delta) (last + delta) (sections.map (·.shift delta)) := by
  induction sections generalizing first with
  | nil =>
      have hend : first = last + 1 := h
      show first + delta = last + delta + 1
      omega
  | cons s rest ih =>
      obtain ⟨hfirst, hforward, hrest⟩ := h
      have hmoved := ih hrest
      have hnext : s.last + 1 + delta = s.last + delta + 1 := by omega
      rw [hnext] at hmoved
      refine ⟨?_, ?_, ?_⟩
      · rw [Section.first_shift, hfirst]
      · rw [Section.first_shift, Section.last_shift]
        omega
      · rw [Section.last_shift]
        exact hmoved

/-- Only the ranges of sections decide whether they are a tiling. -/
theorem Tiles.of_ranges {first last : Int} {sections sections' : List Section}
    (h : Tiles first last sections)
    (hranges : sections'.map (fun s => (s.first, s.last)) = sections.map fun s => (s.first, s.last)) :
    Tiles first last sections' := by
  induction sections generalizing first sections' with
  | nil =>
      obtain rfl := List.map_eq_nil_iff.1 hranges
      exact h
  | cons s rest ih =>
      obtain ⟨s', rest', rfl, hs, hrest⟩ := List.map_eq_cons_iff.1 hranges
      obtain ⟨hfirst, hlast⟩ := Prod.mk.inj hs
      obtain ⟨hstart, hforward, htail⟩ := h
      refine ⟨hfirst.trans hstart, ?_, ?_⟩
      · rw [hfirst, hlast]
        exact hforward
      · rw [hlast]
        exact ih htail hrest

namespace Document

/-- Sections that tile lines of a file, have different names and are sound. -/
structure Orderly (sections : List Section) : Prop where
  tiles : ∃ last, Tiles 1 last sections
  nodup : (namesOf sections).Nodup
  sound : ∀ s ∈ sections, s.Sound

/-- A tiling of which one section is replaced is still one, up to another last line. -/
theorem Replaces.tiles {candidate : Tracked} {sections replaced : List Section}
    (h : Replaces candidate sections replaced) {first last : Int} (htiles : Tiles first last sections) :
    ∃ last', Tiles first last' replaced := by
  induction h generalizing first with
  | @here s rest hname hmodified =>
      obtain ⟨hfirst, -, hrest⟩ := htiles
      have hmoved := hrest.shift ((s.take candidate).last - s.last)
      have hnext : (Section.tracked s).last + 1 + ((s.take candidate).last - s.last) =
          (s.take candidate).last + 1 := by
        rw [show (Section.tracked s).last = s.last from rfl]
        omega
      rw [hnext] at hmoved
      exact ⟨_, hfirst, s.forward_take candidate, hmoved⟩
  | plain hrest ih | tracked hname hrest ih =>
      obtain ⟨hfirst, hforward, htail⟩ := htiles
      obtain ⟨last', hdone⟩ := ih htail
      exact ⟨last', hfirst, hforward, hdone⟩

/-- Sections of which one is replaced by a sound one stay sound. -/
theorem Replaces.sound {candidate : Tracked} (hcandidate : candidate.Sound)
    {sections replaced : List Section} (h : Replaces candidate sections replaced)
    (hsound : ∀ s ∈ sections, s.Sound) : ∀ s ∈ replaced, s.Sound := by
  induction h with
  | here hname hmodified =>
      obtain ⟨hs, hrest⟩ := List.forall_mem_cons.1 hsound
      refine List.forall_mem_cons.2 ⟨.tracked (hs.of_tracked.take hcandidate), ?_⟩
      exact List.forall_mem_map.2 fun t ht => (hrest t ht).shift _
  | plain hrest ih | tracked hname hrest ih =>
      obtain ⟨hs, hothers⟩ := List.forall_mem_cons.1 hsound
      exact List.forall_mem_cons.2 ⟨hs, ih hothers⟩

/-- Orderly sections of which one is replaced stay orderly. -/
theorem Orderly.replaced {candidate : Tracked} (hcandidate : candidate.Sound)
    {sections replaced : List Section} (h : Orderly sections)
    (hreplaces : Replaces candidate sections replaced) : Orderly replaced := by
  obtain ⟨last, htiles⟩ := h.tiles
  exact ⟨hreplaces.tiles htiles, hreplaces.names_eq ▸ h.nodup, hreplaces.sound hcandidate h.sound⟩

/-- Orderly sections stay orderly when their contents are accepted. -/
theorem Orderly.accept {sections : List Section} (h : Orderly sections) :
    Orderly (sections.map (·.accept)) := by
  obtain ⟨last, htiles⟩ := h.tiles
  refine ⟨⟨last, htiles.map Section.first_accept Section.last_accept⟩, ?_, ?_⟩
  · rw [names_of_map_accept]
    exact h.nodup
  · exact List.forall_mem_map.2 fun s hs => (h.sound s hs).accept

/-- The section that is no longer tracked stays where it is, with its content. -/
theorem untrack_cases {name : Text} {sections rest : List Section}
    (h : untrack? name sections = some rest) : ∃ before s after,
      sections = before ++ .tracked s :: after ∧
      rest = before ++ .plain ⟨s.first, s.last, s.content⟩ :: after := by
  induction sections generalizing rest with
  | nil => cases h
  | cons s others ih =>
      -- A section before the one of that name is kept.
      have hkept : ∀ kept, untrack? name others = some kept → ∃ before t after,
          s :: others = before ++ .tracked t :: after ∧
          s :: kept = before ++ .plain ⟨t.first, t.last, t.content⟩ :: after := by
        intro kept hkept
        obtain ⟨before, t, after, rfl, rfl⟩ := ih hkept
        exact ⟨s :: before, t, after, rfl, rfl⟩
      cases s with
      | plain s =>
          obtain ⟨kept, hmem, rfl⟩ := Option.map_eq_some_iff.1 h
          exact hkept kept hmem
      | tracked s =>
          rw [untrack?] at h
          split at h
          · obtain rfl := (Option.some.inj h).symm
            exact ⟨[], s, others, rfl, rfl⟩
          · obtain ⟨kept, hmem, rfl⟩ := Option.map_eq_some_iff.1 h
            exact hkept kept hmem

/-- Orderly sections stay orderly without tracking for one of them. -/
theorem Orderly.untracked {name : Text} {sections rest : List Section} (h : Orderly sections)
    (huntrack : untrack? name sections = some rest) : Orderly rest := by
  obtain ⟨last, htiles⟩ := h.tiles
  obtain ⟨before, s, after, rfl, rfl⟩ := untrack_cases huntrack
  refine ⟨⟨last, htiles.of_ranges ?_⟩, ?_, ?_⟩
  · simp [Section.first, Section.last]
  · refine h.nodup.sublist ?_
    simp only [namesOf, List.filterMap_append, List.map_append]
    exact (List.Sublist.refl _).append (List.sublist_cons_self _ _)
  · obtain ⟨hbefore, hrest⟩ := List.forall_mem_append.1 h.sound
    obtain ⟨hs, hafter⟩ := List.forall_mem_cons.1 hrest
    exact List.forall_mem_append.2 ⟨hbefore, List.forall_mem_cons.2 ⟨.plain hs.closed, hafter⟩⟩

end Document

/-! ## Documents -/

/-- What is known of a sidecar agrees with the content of its file. -/
def Sidecar.Sound (s : Sidecar) : Prop := s.isModified = true ↔ s.accepted ≠ s.current

/-- A sidecar that was read agrees with the content that it was read for. -/
theorem Sidecar.sound_of_read {path : Path} {content octets : Bytes} {s : Sidecar}
    (h : Sidecar.read path content octets = .ok s) : s.Sound := by
  rw [Sidecar.Sound, (Sidecar.of_read h).2.2]
  simp

namespace Document

/-- The sections of a document are orderly, and its sidecar agrees with its content. -/
structure Sound (d : Document) : Prop where
  orderly : Orderly d.sections
  sidecar_sound : ∀ s, d.sidecar = some s → s.Sound

/-- The tracked sections of a sound document are sound. -/
theorem Sound.of_mem_tracked {d : Document} (h : d.Sound) {s : Tracked} (hs : s ∈ d.tracked) :
    s.Sound := by
  obtain ⟨t, ht, htracked⟩ := List.mem_filterMap.1 hs
  cases t with
  | plain t => cases htracked
  | tracked t =>
      obtain rfl := Option.some.inj htracked
      exact (h.orderly.sound _ ht).of_tracked

/-- A legible document whose sections follow one another from the first line on is sound. -/
theorem Legible.sound {d : Document} (h : d.Legible) {last : Int} (htiles : Tiles 1 last d.sections) :
    d.Sound where
  orderly := ⟨⟨last, htiles⟩, h.nodup, fun s hs => (h.section_legible s hs).sound⟩
  sidecar_sound s hs := by simp [h.sidecar_eq_none] at hs

/-- Whether a document may be written does not make it more or less sound. -/
theorem Sound.with_read_only {d : Document} (h : d.Sound) (isReadOnly : Bool) :
    ({ d with isReadOnly } : Document).Sound :=
  ⟨h.orderly, h.sidecar_sound⟩

/-- The document of a text is sound. -/
theorem sound_of_text (commentPrefix : Text) (path : Option Path) (t : Text) (isReadOnly : Bool) :
    ({ (ofText commentPrefix path t).1 with isReadOnly } : Document).Sound := by
  have htiles : Tiles 1 t.lines.1.length (ofText commentPrefix path t).1.sections :=
    tiles_sections_of_lines commentPrefix path t.lines.2 t.lines.1
  exact ((legible_of_text commentPrefix path t).sound htiles).with_read_only isReadOnly

/-- The document of a sound sidecar is sound. -/
theorem sound_of_sidecar {s : Sidecar} (h : s.Sound) (path : Option Path) (isReadOnly : Bool) :
    (ofSidecar s path isReadOnly).Sound where
  orderly := ⟨⟨0, rfl⟩, List.nodup_nil, fun _ hs => nomatch hs⟩
  sidecar_sound _ hs := Option.some.inj hs ▸ h

/-- What is read from disk is sound. -/
theorem sound_of_load {written : Text} {given : Option Text} {config : Config} {view : View}
    {notices notices' : List Notice} {d : Document}
    (h : outcome (load written given config) view notices = (.ok d, notices')) : d.Sound := by
  rcases load_inversion h with ⟨path, content, s, hfile, rfl⟩ | ⟨path, content, t, -, -, rfl⟩
  · obtain ⟨_, _, -, -, -, -, hread⟩ := hfile.sidecar_eq
    exact sound_of_sidecar (Sidecar.sound_of_read hread) _ _
  · exact sound_of_text _ (some path) t _

/-- A sound document stays sound when everything in it is accepted. -/
theorem Sound.accept {d : Document} (h : d.Sound) : d.accept.Sound := by
  unfold Document.accept
  split
  · refine ⟨h.orderly, fun s hs => ?_⟩
    obtain rfl := Option.some.inj hs
    simp [Sidecar.Sound, Sidecar.accept, Sidecar.current]
  · next hsidecar => exact ⟨h.orderly.accept, fun s hs => by simp [hsidecar] at hs⟩

/-- A sound document stays sound without tracking for a section. -/
theorem Sound.delete {d e : Document} {name : Text} (h : d.Sound)
    (hdelete : d.delete? name = some e) : e.Sound := by
  obtain ⟨sections, huntrack, rfl⟩ := Option.map_eq_some_iff.1 hdelete
  exact ⟨h.orderly.untracked huntrack, h.sidecar_sound⟩

/-- A sound document stays sound when it takes a sound section. -/
theorem Sound.apply_section {target : Document} (h : target.Sound) {candidate : Tracked}
    (hcandidate : candidate.Sound) : (target.applySection candidate).target.Sound := by
  rcases apply_section_cases target candidate with ⟨hsame, -⟩ | ⟨-, sections, hreplaces, hdone, -⟩
  · rw [hsame]
    exact h
  · rw [hdone]
    exact ⟨h.orderly.replaced hcandidate hreplaces, h.sidecar_sound⟩

/-- A sound document stays sound when it takes sound sections one after another. -/
theorem Sound.apply_each {target : Document} (h : target.Sound) {candidates : List Tracked}
    (hcandidates : ∀ c ∈ candidates, c.Sound) : (target.applyEach candidates).1.Sound :=
  apply_each_maintains (fun c hc _ hd => hd.apply_section (hcandidates c hc)) h

/-- A sound document stays sound when it takes the whole content of another one with a sidecar. -/
theorem Sound.apply_sidecar {target source : Document} (h : target.Sound) (hsource : source.Sound)
    {mine theirs : Sidecar} (htheirs : source.sidecar = some theirs) :
    (target.applySidecar source mine theirs).target.Sound := by
  have hsound := hsource.sidecar_sound theirs htheirs
  unfold applySidecar
  split
  · exact h
  · next hmine =>
      split
      · exact h
      · next hmodified =>
          split
          · exact h
          · refine ⟨h.orderly, fun s hs => ?_⟩
            obtain rfl := Option.some.inj hs
            -- Neither side is modified, so what was accepted there is the digest of what is taken.
            have haccepted : theirs.accepted = theirs.current :=
              not_not.1 fun hne => hmodified (hsound.2 hne)
            exact iff_of_false hmine (not_not.2 haccepted)

/-- A sound document stays sound when it takes from another one. -/
theorem Sound.apply {target source : Document} (h : target.Sound) (hsource : source.Sound) :
    (target.apply source).target.Sound := by
  unfold Document.apply
  split
  · exact h
  · split
    · next mine theirs hmine htheirs => exact h.apply_sidecar hsource htheirs
    · unfold applySections
      split
      · exact ⟨hsource.orderly, h.sidecar_sound⟩
      · exact h.apply_each fun c hc => hsource.of_mem_tracked hc

/-- A sound document stays sound when it takes from sound documents or pulls from sources, whether it
fails or not. -/
theorem Sound.update {target : Document} (h : target.Sound) {cache : SourceCache}
    (hcache : ∀ entry ∈ cache.documents, entry.2.Sound) (wanted : List (Option Text))
    {source : Option Document} (hsource : ∀ e, source = some e → e.Sound) (view : View) :
    (target.update cache wanted source view).2.target.Sound :=
  update_maintains sound_of_load (fun _ _ _ hd he hc => hd.apply_section (he.of_mem_tracked hc))
    (fun _ _ hd he => hd.apply he) h hcache wanted hsource view

/-! ## All documents that arise -/

/-- The documents that come from reading texts with any comment prefixes and from loading sidecars, and
from accepting, from no longer tracking sections and from taking from one another in any order. What is
pulled comes from the disk or from a cache of such documents. -/
inductive Arises : Document → Prop where
  | read (commentPrefix : Text) (path : Option Path) (t : Text) (isReadOnly : Bool) :
      Arises { (ofText commentPrefix path t).1 with isReadOnly }
  | loadSidecar {sidecarPath : Path} {content : Bytes} {view : View} {s : Sidecar}
      {notices : List Notice} (path : Option Path) (isReadOnly : Bool)
      (hload : (Sidecar.load sidecarPath content).report view = (.ok s, notices)) :
      Arises (ofSidecar s path isReadOnly)
  | accept {d : Document} (h : Arises d) : Arises d.accept
  | delete {d e : Document} {name : Text} (h : Arises d) (hdelete : d.delete? name = some e) :
      Arises e
  | applySection {target source : Document} {candidate : Tracked} (htarget : Arises target)
      (hsource : Arises source) (hcandidate : candidate ∈ source.tracked) :
      Arises (target.applySection candidate).target
  | apply {target source : Document} (htarget : Arises target) (hsource : Arises source) :
      Arises (target.apply source).target
  | update {target : Document} {cache : SourceCache} {source : Option Document}
      (wanted : List (Option Text)) (view : View) (htarget : Arises target)
      (hcache : ∀ entry ∈ cache.documents, Arises entry.2)
      (hsource : ∀ e, source = some e → Arises e) :
      Arises (target.update cache wanted source view).2.target

/-- Every document that arises is sound. -/
theorem Arises.sound {d : Document} (h : Arises d) : d.Sound := by
  induction h with
  | read commentPrefix path t isReadOnly => exact sound_of_text commentPrefix path t isReadOnly
  | loadSidecar path isReadOnly hload =>
      obtain ⟨_, -, hread⟩ := read_of_outcome_load hload
      exact sound_of_sidecar (Sidecar.sound_of_read hread) path isReadOnly
  | accept _ ih => exact ih.accept
  | delete _ hdelete ih => exact ih.delete hdelete
  | applySection _ _ hcandidate ihtarget ihsource =>
      exact ihtarget.apply_section (ihsource.of_mem_tracked hcandidate)
  | apply _ _ ihtarget ihsource => exact ihtarget.apply ihsource
  | update wanted view _ _ _ ihtarget ihcache ihsource =>
      exact ihtarget.update ihcache wanted ihsource view

/-- Of every document that arises, the sections cover lines from the first on, one range after the other
and none empty. No two tracked sections have one name and none has that of the whole file. Each has the
digest of its content, and each content is empty or ends with a line. A document without a sidecar is
modified exactly when the content of some tracked section is not the one that was accepted, and a
document with a sidecar exactly when its own content is not. -/
theorem Arises.representation {d : Document} (h : Arises d) :
    (d.sidecar = none → (∃ last, Tiles 1 last d.sections) ∧ d.names.Nodup ∧
      Marker.wholeFile ∉ d.names ∧ (∀ s ∈ d.tracked, s.current = Digest.ofText s.content) ∧
      (∀ s ∈ d.sections, s.content = [] ∨ s.content.getLast? = some '\n') ∧
      (d.isModified = true ↔ ∃ s ∈ d.tracked, Digest.ofText s.content ≠ s.accepted)) ∧
    ∀ s, d.sidecar = some s → (d.isModified = true ↔ s.accepted ≠ Digest.ofBytes s.content) := by
  have hsound := h.sound
  have hcurrent : ∀ s ∈ d.tracked, s.current = Digest.ofText s.content := fun s hs =>
    (hsound.of_mem_tracked hs).current_eq
  refine ⟨fun hsidecar => ⟨hsound.orderly.tiles, hsound.orderly.nodup, ?_, hcurrent, ?_, ?_⟩,
    fun s hs => ?_⟩
  · intro hmem
    obtain ⟨s, hs, hname⟩ := List.mem_map.1 hmem
    exact (hsound.of_mem_tracked hs).name_ne_whole_file hname
  · exact fun s hs => (hsound.orderly.sound s hs).closed.content_cases
  · rw [isModified, hsidecar]
    simp only [List.any_eq_true, Tracked.isModified, decide_eq_true_eq]
    exact exists_congr fun s => and_congr_right fun hs => by rw [hcurrent s hs]
  · rw [isModified, hs]
    exact hsound.sidecar_sound s hs

/-- The section of `acceptedSource` in a file with another comment prefix. -/
def slashedSource : Text :=
  ("//... s begin\n//... s hash 7AA7A5359173D05B63CFD682E3C38487F3CB4F7F1D60659FE59FAB1505977D4C\n" ++
    "new\n//... s end\n").toList

/-- What was pulled from a file with another comment prefix is in order. -/
theorem slashed_source_pulled :
    let target : Document := { (ofText ['#'] none sourcedTarget).1 with isReadOnly := false }
    let d := (target.update (.empty (some ['/', '/']) .empty) [] none
      (filesOnly [(['f'], slashedSource)])).2.target
    Arises d ∧ d.sidecar = none ∧ d.tracked.map (·.content) = ["new\n".toList] ∧
      (∃ last, Tiles 1 last d.sections) ∧
      (d.isModified = true ↔ ∃ s ∈ d.tracked, Digest.ofText s.content ≠ s.accepted) := by
  intro target d
  have hcontent : d.sidecar = none ∧ d.tracked.map (·.content) = ["new\n".toList] := by
    decide +kernel
  have htarget : Arises target := .read ['#'] none sourcedTarget false
  -- The rest holds of any target, so that nothing is evaluated below.
  clear_value target
  have hd : Arises d := .update [] _ htarget (fun _ h => nomatch h) fun _ h => nomatch h
  obtain ⟨hcomments, -⟩ := hd.representation
  obtain ⟨htiles, -, -, -, -, hmodified⟩ := hcomments hcontent.1
  exact ⟨hd, hcontent.1, hcontent.2, htiles, hmodified⟩

end Document

end TrackedSections
