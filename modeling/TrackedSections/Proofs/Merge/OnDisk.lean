import TrackedSections.Proofs.Document.Planning
import TrackedSections.Proofs.Document.Saving
import TrackedSections.Proofs.Merge.Legible
import TrackedSections.Proofs.Merge.LocalEdits
import TrackedSections.Proofs.Text.Utf8

/-!
# Local edits are kept on disk

Read `apply_disk_cases` first: applying a document with comments to a file that exists leaves the disk
as it was, or overwrites that file with the text of the merged document. As that text is read back as the
merged document (`Legible.edits_reread`), no file loses an edit (`apply_keeps_edits`).
-/

namespace TrackedSections

open Effect

/-- The section that a block is read as, wherever it stands. -/
def Block.unplaced (b : Block) : Tracked :=
  ⟨0, 0, b.name, b.accepted, b.source, Text.closeLines b.content,
    Digest.ofText (Text.closeLines b.content)⟩

/-- A legible section is that of its block. -/
theorem Section.Legible.unplaced_block {commentPrefix : Text} {t : Tracked}
    (h : (Section.tracked t).Legible commentPrefix) : t.block.unplaced = t.unplaced := by
  obtain ⟨ls, hls, hcontent⟩ := h.closed
  change t.content = Text.closeLines ls at hcontent
  have hlines : Text.closeLines t.content.lines.1 = t.content := by
    rw [hcontent, Text.lines_close_lines hls]
  have hcurrent := h.current_eq t rfl
  rw [Block.unplaced, Tracked.block]
  dsimp only
  rw [hlines, ← hcurrent]
  rfl

namespace Document

/-- The sections of a legible document are those of its blocks. -/
theorem Legible.unplaced_tracked {d : Document} (h : d.Legible) :
    (d.tracked.map (·.block)).map Block.unplaced = d.tracked.map (·.unplaced) := by
  rw [List.map_map]
  refine List.map_congr_left ?_
  intro t ht
  obtain ⟨s, hs, htracked⟩ := List.mem_filterMap.1 ht
  cases s with
  | plain s => cases htracked
  | tracked s =>
      obtain rfl := Option.some.inj htracked
      exact (h.section_legible _ hs).unplaced_block

/-- The sections of a legible document are read back once it is written. -/
theorem Legible.unplaced_reread {d : Document} (h : d.Legible) (path : Option Path) :
    (ofText d.commentPrefix path d.write).1.tracked.map (·.unplaced) =
      d.tracked.map (·.unplaced) := by
  rw [← (legible_of_text d.commentPrefix path d.write).unplaced_tracked, h.blocks_reread path,
    h.unplaced_tracked]

/-- The local edits of a legible document are read back once it is written. -/
theorem Legible.edits_reread {d : Document} (h : d.Legible) (path : Option Path) :
    (ofText d.commentPrefix path d.write).1.edits = d.edits := by
  have hunplaced := h.unplaced_reread path
  unfold tracked at hunplaced
  rw [edits, edits, editsOf, editsOf, hunplaced]

/-- A file with comments is one still when some file is overwritten, with the new content if it is that
file. -/
theorem CommentFile.overwritten {host : Host} {d d' : Disk} {written : Text} {path : Path}
    {content old new : Bytes} {place : List Text} (h : CommentFile ⟨host, d⟩ written path content)
    (hplace : d.faceAt place = some (some old)) (hd : d.Overwritten d' place new) :
    (d.locate path = .ok place ∧ CommentFile ⟨host, d'⟩ written path new) ∨
      (d.locate path ≠ .ok place ∧ CommentFile ⟨host, d'⟩ written path content) := by
  have hreadable : Path.resolve ⟨.slash, d'.workdir⟩ path ∉ host.unreadable := by
    rw [hd.workdir_eq]
    exact h.is_readable
  have hsidecar : ∃ sidecarPath, Sidecar.pathFor path = .ok sidecarPath ∧
      (sidecarPath.hasNull = true ∨ d'.isFile sidecarPath = .ok false) := by
    obtain ⟨sidecarPath, hpath, hfile⟩ := h.no_sidecar
    refine ⟨sidecarPath, hpath, hfile.imp_right ?_⟩
    intro hfile
    rw [hd.is_file_eq hplace]
    exact hfile
  rcases Classical.em (d.locate path = .ok place) with hlocate | hlocate
  · exact .inl ⟨hlocate, h.expand_eq, h.no_null, hreadable, hd.read_of_locate hplace hlocate,
      hsidecar⟩
  · refine .inr ⟨hlocate, h.expand_eq, h.no_null, hreadable, ?_, hsidecar⟩
    exact (hd.read_of_ne hplace hlocate).trans h.read_eq

/-- A document that takes from one without a sidecar has none itself. -/
theorem sidecar_of_is_changed {target source : Document} (hsource : source.sidecar = none)
    (h : (target.apply source).isChanged = true) : target.sidecar = none := by
  cases htarget : target.sidecar with
  | none => rfl
  | some mine =>
      have hobstacle : target.obstacle? source = some (.commentsToSidecar source.name target.name) := by
        simp [obstacle?, hasSidecar, htarget, hsource]
      rw [apply, hobstacle] at h
      cases h

/-- Carrying out an update of a file overwrites it with the text of the target, or fails and may leave it
as it was. -/
theorem carry_out_update_cases (source : Document) {target : Document}
    (hsidecar : target.sidecar = none) {path : Path} (hpath : target.path = some path) {disk : Disk}
    {place : List Text} {old : Bytes} (hlocate : disk.locate path = .ok place)
    (hplace : disk.faceAt place = some (some old)) (named : Path) (host : Host)
    (notices : List Notice) :
    (disk.Overwritten
        (outcome (Plan.carryOut source (.update named target)) host ⟨disk, notices⟩).2.disk place old ∧
      (outcome (Plan.carryOut source (.update named target)) host ⟨disk, notices⟩).1 ≠ .ok ()) ∨
    disk.Overwritten
      (outcome (Plan.carryOut source (.update named target)) host ⟨disk, notices⟩).2.disk place
      target.write.encode := by
  cases hcarry : outcome (Plan.carryOut source (.update named target)) host ⟨disk, notices⟩ with
  | mk carried progress =>
      cases carried with
      | error failure =>
          have hsave := save_overwrites hsidecar hpath hlocate hplace
          have hmaintains : Operation.MaintainsDisk (fun e => disk.Overwritten e place old ∨
              disk.Overwritten e place target.write.encode)
              (Plan.carryOut source (.update named target)) := maintains_carry_out_update hsave
          have hdisk := hmaintains.of_outcome (.inl (.refl hplace)) hcarry
          exact hdisk.imp_left fun hdisk => ⟨hdisk, by simp⟩
      | ok _ =>
          obtain ⟨saved, between, hsave, hdisk⟩ := save_of_update hcarry
          dsimp only
          rw [hdisk]
          right
          refine disk_of_save (p := fun e => disk.Overwritten e place target.write.encode) hsidecar
            hpath (fun _ e hwrite => ?_) (fun e e' mode h hmode => ?_) hsave
          · exact (Disk.Overwritten.refl hplace).write hplace hlocate hwrite
          · exact h.change_mode hplace hlocate hmode

/-- A target that takes something from a document with comments was read from a file with comments. What it
is afterwards has the path of that file and no sidecar. -/
theorem comment_file_of_taken {source before : Document} (hsource : source.sidecar = none)
    {config : Config} {view : View} {path : Path} {notices notices' : List Notice}
    (hload : outcome (load path.toText source.targetPrefix config) view notices =
      (.ok before, notices'))
    (hchanged : (before.apply source).isChanged = true) :
    ∃ path' old t, CommentFile view path.toText path' old ∧ Text.decode old = .ok t ∧
      before = ofFile source.commentPrefix view path' t ∧
      (before.apply source).target.sidecar = none ∧
      (before.apply source).target.path = some path' := by
  have hsidecar := sidecar_of_is_changed hsource hchanged
  rw [target_prefix_eq hsource] at hload
  obtain ⟨path', old, t, hcommentFile, hdecode, rfl⟩ := comment_file_of_load hload hsidecar
  refine ⟨path', old, t, hcommentFile, hdecode, rfl, ?_⟩
  -- Taking changes neither the sidecar nor the path.
  obtain ⟨sections, markers, hframe⟩ := apply_frame hsidecar source
  rw [hframe]
  exact ⟨rfl, rfl⟩

/-- When a document with comments updates its target, the target was read from a file with comments. -/
theorem Planned.comment_file {source : Document} (hsource : source.sidecar = none) {config : Config}
    {view : View} {path : Path} {target : Document}
    (h : Planned source config view (.update path target)) :
    ∃ path' place old t, CommentFile view path.toText path' old ∧ Text.decode old = .ok t ∧
      view.disk.locate path' = .ok place ∧ view.disk.faceAt place = some (some old) ∧
      target = ((ofFile source.commentPrefix view path' t).apply source).target ∧
      target.sidecar = none ∧ target.path = some path' := by
  cases h with
  | update htarget hexpand hnull hfile hload hchanged =>
      obtain ⟨path', old, t, hcommentFile, hdecode, rfl, hmerged⟩ :=
        comment_file_of_taken hsource hload hchanged
      obtain ⟨place, hlocate, hplace⟩ := Disk.locate_of_read hcommentFile.read_eq
      exact ⟨path', place, old, t, hcommentFile, hdecode, hlocate, hplace, rfl, hmerged⟩

/-- What applying a document with comments to a file that exists does to the disk: nothing, or the file
is overwritten with what it was or with the text of the merged document. It is the latter when the
outcome is that the file was updated. -/
theorem apply_disk_cases {source : Document} (hsource : source.sidecar = none) (config : Config)
    {view : View} {named : Text} {path : Path} (htarget : source.target = some named)
    (hexpand : view.host.expand named = .ok path) (hnull : path.hasNull = false)
    (hfile : view.disk.isFile path = .ok true) :
    (((Operation.apply source config).report view).2 = view.disk ∧
      ((Operation.apply source config).report view).1.1 ≠ .ok .updated) ∨
    ∃ path' place old t, CommentFile view path.toText path' old ∧ Text.decode old = .ok t ∧
      view.disk.locate path' = .ok place ∧ view.disk.faceAt place = some (some old) ∧
      ((view.disk.Overwritten ((Operation.apply source config).report view).2 place old ∧
        ((Operation.apply source config).report view).1.1 ≠ .ok .updated) ∨
      view.disk.Overwritten ((Operation.apply source config).report view).2 place
        ((ofFile source.commentPrefix view path' t).apply source).target.write.encode) := by
  rcases report_apply source config view with ⟨failure, notices, -, hreport⟩ |
    ⟨plan, notices, hplan, hreport⟩
  · rw [hreport]
    exact .inl ⟨rfl, by simp⟩
  · -- A failed inspection was the first case, so the disk is touched only by carrying out a plan.
    have hplanned := planned_of_plan hplan
    cases plan with
    | skip | keep =>
        rw [hreport]
        refine .inl ⟨rfl, ?_⟩
        intro h
        cases Except.ok.inj h
    | create path₁ =>
        cases hplanned with
        | create htarget' hexpand' hmissing =>
            obtain rfl := Option.some.inj (htarget.symm.trans htarget')
            obtain rfl := Except.ok.inj (hexpand.symm.trans hexpand')
            rw [hnull, hfile] at hmissing
            exact absurd hmissing (by simp)
    | update path₁ target =>
        obtain ⟨path', place, old, t, hcommentFile, hdecode, hlocate, hplace, hmerged, hsidecar,
          hpath⟩ := hplanned.comment_file hsource
        obtain rfl : path = path₁ := by
          cases hplanned with
          | update htarget' hexpand' =>
              obtain rfl := Option.some.inj (htarget.symm.trans htarget')
              exact Except.ok.inj (hexpand.symm.trans hexpand')
        refine .inr ⟨path', place, old, t, hcommentFile, hdecode, hlocate, hplace, ?_⟩
        rw [hreport, ← hmerged]
        refine (carry_out_update_cases source hsidecar hpath hlocate hplace path view.host
          notices).imp_left fun h => ⟨h.1, fun hupdated => h.2 ?_⟩
        cases hcarried : (outcome (Plan.carryOut source (.update path target)) view.host
            ⟨view.disk, notices⟩).1 with
        | error failure =>
            rw [hcarried] at hupdated
            cases hupdated
        | ok _ => rfl

/-- The edits of a file depend on its text alone. -/
theorem edits_of_file (commentPrefix : Text) (view : View) (path : Path) (t : Text)
    (path' : Option Path) :
    (ofFile commentPrefix view path t).edits = (ofText commentPrefix path' t).1.edits := by
  rw [edits, edits, sections_of_file commentPrefix view path t path']

/-- Whether a document may be written does not make it more or less legible. -/
theorem Legible.with_read_only {d : Document} (h : d.Legible) (isReadOnly : Bool) :
    ({ d with isReadOnly } : Document).Legible :=
  ⟨h.sidecar_eq_none, h.property_valid, h.section_legible, h.nodup⟩

/-- A file with comments is read as a legible document. -/
theorem legible_of_file (commentPrefix : Text) (view : View) (path : Path) (t : Text) :
    (ofFile commentPrefix view path t).Legible :=
  (legible_of_text commentPrefix (some path) t).with_read_only _

/-- The edits of a file that took from a legible source are read back once it is written. -/
theorem edits_of_merged {source : Document} (hsource : source.Legible) (view view' : View)
    (path path' : Path) (t : Text) :
    (ofFile source.commentPrefix view' path'
        ((ofFile source.commentPrefix view path t).apply source).target.write).edits =
      ((ofFile source.commentPrefix view path t).apply source).target.edits := by
  have htarget := legible_of_file source.commentPrefix view path t
  have hsame := comment_prefix_of_file source.commentPrefix view path t
  obtain ⟨hmerged, hcomment⟩ := apply_legible htarget hsource hsame.symm
  have hreread := hmerged.edits_reread (some path')
  rw [hcomment, hsame] at hreread
  rw [edits_of_file _ view' path' _ (some path'), hreread]

/-- A file with comments has the text that it had after some file was overwritten, or it is that file and
has the new text. -/
theorem CommentFile.text_overwritten {host : Host} {d d' : Disk} {written : Text} {path : Path}
    {content old new : Bytes} {place : List Text} {t told tnew : Text}
    (h : CommentFile ⟨host, d⟩ written path content) (hdecode : Text.decode content = .ok t)
    (hplace : d.faceAt place = some (some old)) (htold : Text.decode old = .ok told)
    (hd : d.Overwritten d' place new) (htnew : Text.decode new = .ok tnew) :
    ∃ content' t', CommentFile ⟨host, d'⟩ written path content' ∧ Text.decode content' = .ok t' ∧
      (t' = t ∨ (t = told ∧ t' = tnew)) := by
  rcases h.overwritten hplace hd with ⟨hlocate, hfile⟩ | ⟨-, hfile⟩
  · refine ⟨new, tnew, hfile, htnew, .inr ⟨?_, rfl⟩⟩
    obtain ⟨place', hlocate', hplace'⟩ := Disk.locate_of_read h.read_eq
    obtain rfl : place' = place := Except.ok.inj (hlocate'.symm.trans hlocate)
    obtain rfl : content = old := Option.some.inj (Option.some.inj (hplace'.symm.trans hplace))
    exact Except.ok.inj (hdecode.symm.trans htold)
  · exact ⟨content, t, hfile, hdecode, .inl rfl⟩

/-- No file with comments loses a local edit when a document with comments is applied to a file that
exists, whichever file it is and whatever the outcome. -/
theorem apply_keeps_edits {source : Document} (hsource : source.Legible) {config : Config}
    {view : View} {named : Text} {target : Path} (htarget : source.target = some named)
    (hexpand : view.host.expand named = .ok target) (hnull : target.hasNull = false)
    (hfile : view.disk.isFile target = .ok true) {written : Text} {before : Document}
    {notices : List Notice}
    (hload : (load written (some source.commentPrefix) config).report view = (.ok before, notices))
    (hbefore : before.sidecar = none) : ∃ after notices',
      (load written (some source.commentPrefix) config).report
        ⟨view.host, ((Operation.apply source config).report view).2⟩ = (.ok after, notices') ∧
      before.Keeps after := by
  rcases apply_disk_cases hsource.sidecar_eq_none config htarget hexpand hnull hfile with
    ⟨hsame, -⟩ | ⟨targetPath, place, old, told, -, htold, -, hplace, hdisk⟩
  · rw [hsame]
    exact ⟨before, notices, hload, .refl before⟩
  · obtain ⟨path, content, t, hcommentFile, hdecode, rfl⟩ := comment_file_of_load hload hbefore
    -- Whichever text the target has now, it has the edits of the text that it had.
    obtain ⟨new, tnew, hnew, htnew, hkept⟩ : ∃ new tnew,
        view.disk.Overwritten ((Operation.apply source config).report view).2 place new ∧
        Text.decode new = .ok tnew ∧ (ofFile source.commentPrefix view path told).edits.Sublist
          (ofFile source.commentPrefix view path tnew).edits := by
      rcases hdisk with ⟨hdisk, -⟩ | hdisk
      · exact ⟨old, told, hdisk, htold, List.Sublist.refl _⟩
      · refine ⟨_, _, hdisk, Text.decode_encode _, ?_⟩
        rw [edits_of_merged hsource view view targetPath path told, edits_of_file _ view path told none,
          ← edits_of_file _ view targetPath told none]
        exact (apply_keeps (ofFile source.commentPrefix view targetPath told) source).edits
    obtain ⟨content', t', hfile', hdecode', htext⟩ :=
      hcommentFile.text_overwritten hdecode hplace htold hnew htnew
    have hedits : (ofFile source.commentPrefix view path t).edits.Sublist
        (ofFile source.commentPrefix view path t').edits := by
      rcases htext with rfl | ⟨rfl, rfl⟩
      · exact List.Sublist.refl _
      · exact hkept
    obtain ⟨notices', hload'⟩ := outcome_load hfile' hdecode' source.commentPrefix config []
    refine ⟨_, notices', hload', hedits, ?_⟩
    intro s hs
    cases hs

/-- A target with a sidecar takes nothing from a document with comments, and nothing is written. -/
theorem apply_to_sidecar {source : Document} (hsource : source.sidecar = none) {config : Config}
    {view : View} {named : Text} {path : Path} (htarget : source.target = some named)
    (hexpand : view.host.expand named = .ok path) (hnull : path.hasNull = false)
    (hfile : view.disk.isFile path = .ok true) {before : Document} {notices : List Notice}
    (hload : (load path.toText (some source.commentPrefix) config).report view =
      (.ok before, notices))
    (hbefore : before.sidecar ≠ none) :
    ((Operation.apply source config).report view).2 = view.disk := by
  rcases apply_disk_cases hsource config htarget hexpand hnull hfile with
    ⟨hsame, -⟩ | ⟨path', _, _, t, hcommentFile, hdecode, -⟩
  · exact hsame
  · obtain ⟨_, hagain⟩ := outcome_load hcommentFile hdecode source.commentPrefix config []
    have hsame : before = ofFile source.commentPrefix view path' t :=
      Except.ok.inj (Prod.mk.inj (hload.symm.trans hagain)).1
    rw [hsame] at hbefore
    exact absurd (sidecar_of_file _ _ _ _) hbefore

/-- Local edits are never overwritten. Whatever a document takes in memory, and from wherever, its
modified sections and its modified sidecar stay. When a document with comments is applied to a file that
exists, the modified sections of that file are read back afterwards, and so are those of any file with
comments, whatever the outcome. -/
theorem local_edits_survive :
    (∀ (target : Document) (steps : List Taking),
      target.Keeps (steps.foldl Taking.run target)) ∧
    ∀ (commentPrefix : Text) (sourcePath : Option Path) (sourceText : Text) (isReadOnly : Bool)
      (config : Config) (view : View) (named written : Text) (path : Path) (before : Document)
      (notices : List Notice),
      let source : Document := { (ofText commentPrefix sourcePath sourceText).1 with isReadOnly }
      source.target = some named → view.host.expand named = .ok path → path.hasNull = false →
      view.disk.isFile path = .ok true →
      (load written (some commentPrefix) config).report view = (.ok before, notices) →
      (written = path.toText ∨ before.sidecar = none) →
      ∃ after notices', (load written (some commentPrefix) config).report
          ⟨view.host, ((Operation.apply source config).report view).2⟩ = (.ok after, notices') ∧
        before.Keeps after := by
  refine ⟨Taking.foldl_run_keeps, ?_⟩
  intro commentPrefix sourcePath sourceText isReadOnly config view named written path before notices
    source htarget hexpand hnull hfile hload hwritten
  have hlegible : source.Legible :=
    (legible_of_text commentPrefix sourcePath sourceText).with_read_only isReadOnly
  by_cases hbefore : before.sidecar = none
  · exact apply_keeps_edits hlegible htarget hexpand hnull hfile hload hbefore
  · obtain rfl := hwritten.resolve_right hbefore
    have hsame := apply_to_sidecar hlegible.sidecar_eq_none htarget hexpand hnull hfile hload hbefore
    rw [hsame]
    exact ⟨before, notices, hload, .refl before⟩

/-- A source for the file `f` whose only section was edited. -/
def editedSource : Text := "#... s begin\n#... s hash 0\n#... all target f\nnew\n#... s end".toList

/-- A file whose only section was edited in another way. -/
def editedTarget : Text := "#... s begin\n#... s hash 0\nmine\n#... s end\n".toList

/-- An edit survives when another edit of the same section is applied. -/
theorem edit_survives_edited_source :
    (ofFile ['#'] (filesOnly [(['f'], editedTarget)]) ⟨.none, [['f']]⟩ editedTarget).isModified = true ∧
    ∃ after notices, (load ['f'] (some ['#']) .empty).report
        ⟨(filesOnly [(['f'], editedTarget)]).host, ((Operation.apply
          { (ofText ['#'] none editedSource).1 with isReadOnly := false } .empty).report
            (filesOnly [(['f'], editedTarget)])).2⟩ = (.ok after, notices) ∧
      (ofFile ['#'] (filesOnly [(['f'], editedTarget)]) ⟨.none, [['f']]⟩ editedTarget).Keeps after := by
  obtain ⟨notices, hload⟩ := outcome_load (comment_file_of_files_only editedTarget)
    (Text.decode_encode _) ['#'] .empty []
  have htarget : ({ (ofText ['#'] none editedSource).1 with isReadOnly := false } : Document).target =
      some ['f'] := by decide +kernel
  refine ⟨by decide +kernel, ?_⟩
  exact local_edits_survive.2 ['#'] none editedSource false .empty (filesOnly [(['f'], editedTarget)]) ['f']
    ['f'] ⟨.none, [['f']]⟩ _ notices htarget rfl rfl rfl hload (.inl rfl)

end Document

end TrackedSections
