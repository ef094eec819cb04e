import Mathlib.Data.List.Nodup
import TrackedSections.Proofs.Merge.Reachable
import TrackedSections.Proofs.Merge.Settled

/-!
# What a source leaves to take

A target that took from a source and was written is read again. Read `takes_nothing_iff` first: it takes
nothing more from that source, unless it took everything at once from a source without edits and its
text was left open behind an empty line. Then the line feed in front of that line is lost
(`LosesLine`), and taking everything once more brings it back.
-/

namespace TrackedSections

open Text Assembly

/-- Parts that are written as before once the file says whether its last line is closed, unless their last
line was left open and is empty. -/
theorem Part.Readable.write_again_iff {commentPrefix : Text} {parts : List Part}
    (h : Readable commentPrefix parts) (finalNewline : Bool) :
    write commentPrefix (write commentPrefix finalNewline parts).lines.2 parts =
        write commentPrefix finalNewline parts ↔
      ¬ (finalNewline = false ∧ (linesOf commentPrefix parts).getLast? = some []) := by
  have hline := h.is_line
  unfold write
  generalize linesOf commentPrefix parts = ls at hline ⊢
  cases finalNewline with
  | true => simp [lines_close_lines hline]
  | false =>
      rw [if_neg Bool.false_ne_true, lines_open_last_line hline]
      rcases List.eq_nil_or_concat ls with rfl | ⟨ls, l, rfl⟩
      · simp [Document.openLastLine]
      · rw [List.concat_eq_append, List.getLast?_concat, open_last_line_close_lines]
        by_cases hl : l = []
        · simp [hl, closeLine]
        · simp [hl]

namespace Document

/-- A document loses a line when its last line is empty and not closed: neither the line nor the line feed
in front of it can be told from the file. -/
def LosesLine (d : Document) : Prop :=
  d.finalNewline = false ∧ d.closedText.lines.1.getLast? = some []

/-- A target takes nothing from a source when there is nothing to write to its file. -/
def TakesNothing (target source : Document) : Prop :=
  (target.apply source).isChanged = false ∨
    (target.sidecar = none ∧ (target.apply source).target.write = target.write)

variable {d target source : Document}

/-- The lines of a legible document are those of its parts. -/
theorem Legible.lines_closed_text (h : d.Legible) :
    d.closedText.lines.1 = Part.linesOf d.commentPrefix d.parts := by
  rw [closed_text_eq fun s hs => (h.section_legible s hs).closed,
    lines_close_lines h.readable.is_line]

/-- Documents with the same sections show the same hashbang. -/
theorem ShowsHashbang.of_sections (h : source.ShowsHashbang)
    (hsections : d.sections = source.sections) : d.ShowsHashbang := by
  unfold ShowsHashbang hashbang? body at h ⊢
  rw [hsections]
  exact h

/-- A file with comments is read as a document that shows its hashbang. -/
theorem shows_hashbang_of_file (commentPrefix : Text) (view : View) (path : Path) (t : Text) :
    (ofFile commentPrefix view path t).ShowsHashbang := by
  have hshows : (ofLines commentPrefix (some path) t.lines.2 t.lines.1).1.ShowsHashbang :=
    shows_hashbang_of_lines fun _ hl => is_line_of_mem_lines hl
  exact hshows.of_sections rfl

/-- Documents with the same sections and properties have the same parts. -/
theorem parts_of_sections (hsections : d.sections = source.sections)
    (htarget : d.target = source.target)
    (hpermissions : d.permissionsArgument = source.permissionsArgument) : d.parts = source.parts := by
  rw [parts, parts, body, body, propertyParts, propertyParts, hashbang?, hashbang?, hsections, htarget,
    hpermissions]

/-- Nothing stands in the way between documents with comments that are managed. -/
theorem obstacle_eq_none (htarget : target.sidecar = none) (hsource : source.sidecar = none)
    (htargetManaged : target.isManaged = true) (hsourceManaged : source.isManaged = true) :
    target.obstacle? source = none := by
  simp [obstacle?, hasSidecar, htarget, hsource, htargetManaged, hsourceManaged]

/-- A source from which something may be taken is managed. -/
theorem managed_of_obstacle (hsource : source.sidecar = none) (htarget : target.sidecar = none)
    (h : target.obstacle? source = none) : source.isManaged = true := by
  cases hmanaged : source.isManaged with
  | true => rfl
  | false =>
      cases htargetManaged : target.isManaged <;>
        simp [obstacle?, hasSidecar, hsource, htarget, hmanaged, htargetManaged] at h

/-- A document is as modified as its edits say. -/
theorem is_modified_of_edits {d e : Document} (hd : d.sidecar = none) (he : e.sidecar = none)
    (h : d.edits = e.edits) : d.isModified = e.isModified := by
  have hd := unmodified_iff hd
  have he := unmodified_iff he
  rw [h] at hd
  rw [Bool.eq_iff_iff, ← not_iff_not, Bool.not_eq_true, Bool.not_eq_true, hd, he]

/-- A document is as managed as its sections wherever they stand. -/
theorem is_managed_of_unplaced {d e : Document} (hd : d.sidecar = none) (he : e.sidecar = none)
    (h : d.tracked.map (·.unplaced) = e.tracked.map (·.unplaced)) :
    d.isManaged = e.isManaged := by
  have hempty : d.tracked.isEmpty = e.tracked.isEmpty := by
    simpa using congrArg List.isEmpty h
  rw [isManaged, isManaged, hasSidecar, hasSidecar, hd, he, hempty]

/-- A document has the names of its sections wherever they stand. -/
theorem names_of_unplaced {d e : Document}
    (h : d.tracked.map (·.unplaced) = e.tracked.map (·.unplaced)) : d.names = e.names := by
  have hnames (f : Document) : f.names = (f.tracked.map (·.unplaced)).map (·.name) := by
    rw [List.map_map]
    rfl
  rw [hnames, hnames, h]

/-- The sections of a document are settled for those of one that has the same sections. -/
theorem settled_of_same_sections {d e : Document} (hnodup : e.names.Nodup)
    (h : d.tracked.map (·.unplaced) = e.tracked.map (·.unplaced)) :
    ∀ c ∈ e.tracked, Settled c d.tracked := by
  intro c hc
  refine Settled.of_unplaced ?_ h
  intro s hs hname _
  obtain rfl : s = c := List.inj_on_of_nodup_map hnodup hs hc hname
  cases hsource : s.source <;> simp [Tracked.take, Tracked.unplaced, hsource]

/-- Taking everything at once counts as a change. -/
theorem is_changed_of_takes_all (htarget : target.sidecar = none)
    (hobstacle : target.obstacle? source = none) (hall : target.takesAll source = true) :
    (target.apply source).isChanged = true := by
  rw [apply, hobstacle]
  dsimp only
  split
  · next hmine _ => exact absurd (htarget.symm.trans hmine) (Option.some_ne_none _).symm
  · rw [applySections, if_pos hall]

/-- A target with a sidecar takes nothing from a source that was accepted with the same digest. -/
theorem takes_nothing_of_accepted {mine theirs : Sidecar} (hmine : target.sidecar = some mine)
    (htheirs : source.sidecar = some theirs) (h : mine.accepted = theirs.accepted) :
    target.TakesNothing source := by
  have hobstacle : target.obstacle? source = none := by
    simp [obstacle?, hasSidecar, hmine, htheirs]
  refine .inl ?_
  rw [apply, hobstacle]
  dsimp only
  rw [hmine, htheirs]
  simp only [applySidecar, h, if_true]
  split
  · rfl
  · split <;> rfl

/-- A target that takes something from a source with a sidecar takes all of its content. -/
theorem taken_of_is_changed {theirs : Sidecar} (htheirs : source.sidecar = some theirs)
    (h : (target.apply source).isChanged = true) : ∃ mine, target.sidecar = some mine ∧
      mine.isModified = false ∧ theirs.isModified = false ∧ mine.accepted ≠ theirs.accepted ∧
      (target.apply source).target =
        { target with
          sidecar := some { mine with content := theirs.content, accepted := theirs.accepted } } := by
  unfold apply at h ⊢
  split at h
  · cases h
  · next hobstacle =>
      cases hmine : target.sidecar with
      | none =>
          -- A document with comments takes nothing from one with a sidecar.
          cases hmanaged : target.isManaged <;>
            simp [obstacle?, hasSidecar, hmine, htheirs, hmanaged] at hobstacle
      | some mine =>
          rw [hmine, htheirs] at h
          simp only [applySidecar] at h ⊢
          split at h
          · cases h
          · next hmodified =>
              split at h
              · cases h
              · next htheirsModified =>
                  split at h
                  · cases h
                  · next haccepted =>
                      simp [htheirs, hmodified, htheirsModified, haccepted]

variable (view : View) (path : Path)

/-- The sections of a legible document are read back from the file that it was written to. -/
theorem Legible.unplaced_of_file (h : d.Legible) :
    (ofFile d.commentPrefix view path d.write).tracked.map (·.unplaced) =
      d.tracked.map (·.unplaced) := by
  rw [ofFile, tracked_with_read_only]
  exact h.unplaced_reread (some path)

/-- What a document that shows its hashbang was written as is written again as it is. -/
theorem Legible.write_of_file (h : d.Legible) (hshows : d.ShowsHashbang) :
    (ofFile d.commentPrefix view path d.write).write = d.write := by
  have hwrite := h.readable.write_of_text (h.arranged_parts hshows) (some path) d.finalNewline
  rw [← h.write_eq] at hwrite
  rw [ofFile, write_with_read_only]
  exact hwrite

/-- A document that has all sections of a source takes nothing from it after it was written, unless the
source has no edits and the document loses a line. -/
theorem takes_nothing_of_sections_iff (h : d.Legible) (hsource : source.Legible)
    (hcomment : d.commentPrefix = source.commentPrefix) (hsections : d.sections = source.sections)
    (hshows : source.ShowsHashbang) (hmanaged : source.isManaged = true) :
    (ofFile d.commentPrefix view path d.write).TakesNothing source ↔
      ¬ (source.isModified = false ∧ d.LosesLine) := by
  have hafter := legible_of_file d.commentPrefix view path d.write
  have hwrite := h.write_of_file view path (hshows.of_sections hsections)
  have hproperties : (ofFile d.commentPrefix view path d.write).target = d.target ∧
      (ofFile d.commentPrefix view path d.write).permissionsArgument = d.permissionsArgument := by
    rw [target_of_file, permissions_argument_of_file]
    exact h.properties_reread (some path)
  have hclosed := final_newline_of_file d.commentPrefix view path d.write
  have hunplaced : (ofFile d.commentPrefix view path d.write).tracked.map (·.unplaced) =
      source.tracked.map (·.unplaced) := by
    rw [h.unplaced_of_file, tracked, tracked, hsections]
  have hmark := comment_prefix_of_file d.commentPrefix view path d.write
  generalize ofFile d.commentPrefix view path d.write = after at *
  have hsidecar := hafter.sidecar_eq_none
  have hmodified := is_modified_of_unplaced hsidecar hsource.sidecar_eq_none hunplaced
  have hobstacle := obstacle_eq_none hsidecar hsource.sidecar_eq_none
    ((is_managed_of_unplaced hsidecar hsource.sidecar_eq_none hunplaced).trans hmanaged) hmanaged
  have hnames := names_of_unplaced hunplaced
  have hall : after.takesAll source = !source.isModified := by
    simp [takesAll, hnames, hmodified]
  rcases apply_cases hsidecar source with ⟨-, -, hnot⟩ | ⟨-, htakes, hdone⟩ | ⟨-, htakes, hdone⟩
  · exact absurd hobstacle hnot
  · have hunmodified : source.isModified = false := by simpa [hall] using htakes
    have hchanged := is_changed_of_takes_all hsidecar hobstacle htakes
    -- Everything is taken once more, and only whether the last line is closed may differ.
    have hmerged : (after.apply source).target.Legible := (apply_legible hafter hsource
      (hcomment.symm.trans hmark.symm)).1
    have hparts : (after.apply source).target.parts = d.parts := by
      rw [hdone]
      exact parts_of_sections hsections.symm hproperties.1 hproperties.2
    have hmergedWrite : (after.apply source).target.write =
        Part.write d.commentPrefix d.write.lines.2 d.parts := by
      rw [hmerged.write_eq, hparts, hdone]
      simp only [hmark, hclosed]
    have hagain := h.readable.write_again_iff d.finalNewline
    rw [← h.lines_closed_text, ← h.write_eq, ← hmergedWrite] at hagain
    simp [TakesNothing, hchanged, hsidecar, hwrite, hagain, hunmodified, LosesLine]
  · have hmodified : source.isModified = true := by simpa [hall] using htakes
    have hsettled : (after.applyEach source.tracked).1.write = after.write :=
      write_of_settled fun c hc _ => settled_of_same_sections hsource.nodup hunplaced c hc
    refine iff_of_true (.inr ⟨hsidecar, ?_⟩) (by simp [hmodified])
    rw [hdone, hsettled]

/-- A document that took sections one after another takes nothing more from the same source after it was
written. -/
theorem takes_nothing_of_each (htarget : target.Legible) (hsource : source.Legible)
    (hcomment : target.commentPrefix = source.commentPrefix) (hall : target.takesAll source = false)
    (hd : d = (target.applyEach source.tracked).1) :
    (ofFile d.commentPrefix view path d.write).TakesNothing source := by
  have hcandidates : ∀ c ∈ source.tracked, (Section.tracked c).Legible target.commentPrefix :=
    fun c hc => legible_of_mem_tracked (fun _ => ⟨hsource, hcomment.symm⟩) hc
  have hlegible : d.Legible := hd ▸ (apply_each_legible htarget hcandidates).1
  have hunplaced := hlegible.unplaced_of_file view path
  have hsidecar := (legible_of_file d.commentPrefix view path d.write).sidecar_eq_none
  generalize ofFile d.commentPrefix view path d.write = after at *
  have hsettled : ∀ c ∈ source.tracked, c.isModified = false → Settled c after.tracked := by
    intro c hc hmodified
    refine Settled.of_unplaced ?_ hunplaced
    rw [hd]
    exact apply_each_settled htarget.sidecar_eq_none htarget.nodup hsource.nodup c hc hmodified
  have hnames : after.names = target.names := by
    rw [names_of_unplaced hunplaced, hd, names_apply_each]
  have hmodified : after.isModified = target.isModified := by
    have hedits := edits_apply_each target source.tracked
    rw [← hd] at hedits
    rw [is_modified_of_unplaced hsidecar hlegible.sidecar_eq_none hunplaced,
      is_modified_of_edits hlegible.sidecar_eq_none htarget.sidecar_eq_none hedits]
  have hafterAll : after.takesAll source = false := by
    rw [takesAll, hnames, hmodified]
    exact hall
  rcases apply_cases hsidecar source with ⟨-, hsame, -⟩ | ⟨-, htakes, -⟩ | ⟨-, -, hdone⟩
  · exact .inl hsame
  · rw [hafterAll] at htakes
    cases htakes
  · refine .inr ⟨hsidecar, ?_⟩
    rw [hdone, write_of_settled hsettled]

/-- A target that took something from a source and was written takes nothing more from it, unless it took
everything from a source without edits and loses a line. -/
theorem takes_nothing_iff (htarget : target.Legible) (hsource : source.Legible)
    (hcomment : target.commentPrefix = source.commentPrefix) (hshows : source.ShowsHashbang)
    (hchanged : (target.apply source).isChanged = true)
    (hd : d = (target.apply source).target) :
    (ofFile d.commentPrefix view path d.write).TakesNothing source ↔
      ¬ (target.takesAll source = true ∧ source.isModified = false ∧ d.LosesLine) := by
  obtain ⟨hlegible, hsame⟩ := apply_legible htarget hsource hcomment.symm
  rw [← hd] at hlegible hsame
  rcases apply_cases htarget.sidecar_eq_none source with
    ⟨-, hnot, -⟩ | ⟨hobstacle, hall, hdone⟩ | ⟨-, hall, hdone⟩
  · rw [hchanged] at hnot
    cases hnot
  · have hsections : d.sections = source.sections := by rw [hd, hdone]
    have hmanaged := managed_of_obstacle hsource.sidecar_eq_none htarget.sidecar_eq_none hobstacle
    rw [takes_nothing_of_sections_iff view path hlegible hsource (hsame.trans hcomment) hsections
      hshows hmanaged]
    simp [hall]
  · have hnothing := takes_nothing_of_each view path htarget hsource hcomment hall (hd.trans hdone)
    exact iff_of_true hnothing (by simp [hall])

end Document

end TrackedSections
