import TrackedSections.Proofs.Document.Guarded
import TrackedSections.Proofs.Document.Rewriting
import TrackedSections.Proofs.Merge.Foreign
import TrackedSections.Proofs.Merge.SameText

/-!
# Accepting a document

`Document.accept` accepts everything in a document. Read `Arises.accepted_once` first: nothing but the
accepted digests changes, doing it again changes nothing, and in the text only the hash markers of the
sections that were modified get other arguments. A document is written as a list of parts, so that the
text is settled part by part (`Part.accept`, `Part.line_changes_accept`).
-/

namespace TrackedSections

open Text

/-! ## Lines that differ -/

/-- The lines of two texts that differ, side by side. -/
def lineChanges (ls ls' : List Text) : List (Text × Text) :=
  (ls.zip ls').filter fun l => l.1 ≠ l.2

theorem line_changes_self (ls : List Text) : lineChanges ls ls = [] := by
  rw [lineChanges, List.filter_eq_nil_iff]
  intro l hl
  rw [List.zip_eq_zipWith, List.zipWith_self, List.mem_map] at hl
  obtain ⟨l, -, rfl⟩ := hl
  simp

theorem line_changes_cons (l l' : Text) (ls ls' : List Text) : lineChanges (l :: ls) (l' :: ls') =
    if l = l' then lineChanges ls ls' else (l, l') :: lineChanges ls ls' := by
  rw [lineChanges, List.zip_cons_cons, List.filter_cons]
  by_cases h : l = l' <;> simp [h, lineChanges]

/-- A stretch of lines that is as long as its counterpart is compared for itself. -/
theorem line_changes_append {ls ls' : List Text} (h : ls.length = ls'.length) (more more' : List Text) :
    lineChanges (ls ++ more) (ls' ++ more') = lineChanges ls ls' ++ lineChanges more more' := by
  rw [lineChanges, List.zip_append h, List.filter_append]
  rfl

/-- A last line that is the same does not count. -/
theorem line_changes_drop_last {ls ls' : List Text} (hlength : ls.length = ls'.length)
    (hlast : ls'.getLast? = ls.getLast?) :
    lineChanges ls.dropLast ls'.dropLast = lineChanges ls ls' := by
  rcases List.eq_nil_or_concat' ls with rfl | ⟨front, l, rfl⟩
  · rfl
  · rw [List.getLast?_concat] at hlast
    obtain ⟨front', rfl⟩ := List.getLast?_eq_some_iff.1 hlast
    have hfront : front.length = front'.length := by simpa using hlength
    rw [List.dropLast_concat, List.dropLast_concat, line_changes_append hfront, line_changes_self,
      List.append_nil]

variable {commentPrefix : Text}

/-! ## Parts -/

/-- The block with the digest of its content in its hash marker. -/
def Block.accept (b : Block) : Block := { b with accepted := Digest.ofText (closeLines b.content) }

/-- The part with its content accepted, if it is a block. -/
def Part.accept : Part → Part
  | .line text => .line text
  | .property kind argument => .property kind argument
  | .block b => .block b.accept

/-- The hash marker of a block, before and after its content is accepted, if that makes a difference. -/
def Block.hashChanges (commentPrefix : Text) (b : Block) : List (Text × Text) :=
  if b.accepted = b.accept.accepted then []
  else [(Marker.row commentPrefix .hash b.name (some b.accepted),
    Marker.row commentPrefix .hash b.name (some b.accept.accepted))]

/-- Of the lines of a block, its hash marker changes. -/
theorem Block.line_changes_accept (b : Block) :
    lineChanges (b.lines commentPrefix) (b.accept.lines commentPrefix) = b.hashChanges commentPrefix := by
  let rest := (b.source.toList.map fun source => Marker.row commentPrefix .source b.name (some source)) ++
    (b.content ++ [Marker.row commentPrefix .stop b.name none])
  have hlines (accepted : Text) : ({ b with accepted } : Block).lines commentPrefix =
      Marker.row commentPrefix .start b.name none ::
        Marker.row commentPrefix .hash b.name (some accepted) :: rest := rfl
  rw [show b.lines commentPrefix = _ from hlines b.accepted, accept, hlines, line_changes_cons,
    if_pos rfl, line_changes_cons, line_changes_self]
  refine if_congr ⟨Marker.row_argument_inj, fun h => ?_⟩ rfl rfl
  rw [h, accept]

namespace Part

theorem length_lines_accept (p : Part) :
    (p.accept.lines commentPrefix).length = (p.lines commentPrefix).length := by
  cases p with
  | line text | property kind argument => rfl
  | block b =>
      rw [length_lines, length_lines]
      rfl

theorem length_lines_of_accept (parts : List Part) :
    (linesOf commentPrefix (parts.map accept)).length = (linesOf commentPrefix parts).length := by
  induction parts with
  | nil => rfl
  | cons p rest ih =>
      rw [List.map_cons, lines_of_cons, lines_of_cons, List.length_append, List.length_append, ih,
        length_lines_accept]

/-- Of the lines of some parts, the hash markers of their blocks change. -/
theorem line_changes_accept (parts : List Part) :
    lineChanges (linesOf commentPrefix parts) (linesOf commentPrefix (parts.map accept)) =
      (blocks parts).flatMap (·.hashChanges commentPrefix) := by
  induction parts with
  | nil => rfl
  | cons p rest ih =>
      rw [List.map_cons, lines_of_cons, lines_of_cons, line_changes_append (length_lines_accept p).symm, ih]
      cases p with
      | line text | property kind argument =>
          rw [accept, line_changes_self]
          rfl
      | block b => exact congrArg (· ++ _) b.line_changes_accept

/-- The last line of some parts stays, as a block ends with its end marker. -/
theorem get_last_lines_accept (parts : List Part) :
    (linesOf commentPrefix (parts.map accept)).getLast? = (linesOf commentPrefix parts).getLast? := by
  induction parts with
  | nil => rfl
  | cons p rest ih =>
      have hpart : (p.accept.lines commentPrefix).getLast? = (p.lines commentPrefix).getLast? := by
        cases p with
        | line text | property kind argument => rfl
        | block b => simp [accept, lines, Block.lines, Block.accept]
      rw [List.map_cons, lines_of_cons, lines_of_cons, List.getLast?_append, List.getLast?_append, ih, hpart]

/-- Of the lines that a text made of parts is read as, the hash markers of their blocks change. -/
theorem line_changes_write {parts : List Part} (hline : ∀ l ∈ linesOf commentPrefix parts, IsLine l)
    (hline' : ∀ l ∈ linesOf commentPrefix (parts.map accept), IsLine l) (finalNewline : Bool) :
    let before := (write commentPrefix finalNewline parts).lines
    let after := (write commentPrefix finalNewline (parts.map accept)).lines
    after.1.length = before.1.length ∧ after.2 = before.2 ∧
      lineChanges before.1 after.1 = (blocks parts).flatMap (·.hashChanges commentPrefix) := by
  have hlength : _ = (linesOf commentPrefix parts).length := length_lines_of_accept parts
  rw [write, write]
  cases finalNewline with
  | true =>
      rw [if_pos rfl, if_pos rfl, lines_close_lines hline, lines_close_lines hline']
      exact ⟨hlength, rfl, line_changes_accept parts⟩
  | false =>
      have hlast : _ = (linesOf commentPrefix parts).getLast? := get_last_lines_accept parts
      rw [if_neg Bool.false_ne_true, if_neg Bool.false_ne_true, lines_open_last_line hline,
        lines_open_last_line hline', hlast]
      split
      · refine ⟨by simp [hlength], rfl, ?_⟩
        rw [← line_changes_accept, line_changes_drop_last hlength.symm hlast]
      · exact ⟨hlength, rfl, line_changes_accept parts⟩

end Part

/-- The hash marker of a sound section changes when the section is modified. -/
theorem Tracked.Sound.hash_changes {s : Tracked} (h : s.Sound) :
    s.block.hashChanges commentPrefix =
      if s.isModified then [(Marker.row commentPrefix .hash s.name (some s.accepted),
        Marker.row commentPrefix .hash s.name (some s.current))] else [] := by
  have hcurrent : s.block.accept.accepted = s.current := by
    have hcontent : closeLines s.content.lines.1 = s.content := h.closed.close_lines_content
    rw [Block.accept, Tracked.block, hcontent, h.current_eq]
  have hmodified : s.block.accepted = s.current ↔ ¬ s.isModified = true := by
    rw [Tracked.isModified, decide_eq_true_eq, not_not, eq_comm]
    rfl
  rw [Block.hashChanges, hcurrent, if_congr hmodified rfl rfl, ite_not]
  rfl

/-- Of the blocks of sound sections, the hash markers of the modified ones change. -/
theorem Tracked.hash_changes_of_sound {ss : List Tracked} (h : ∀ s ∈ ss, s.Sound) :
    (ss.map (·.block)).flatMap (·.hashChanges commentPrefix) =
      (ss.filter (·.isModified)).map fun s =>
        (Marker.row commentPrefix .hash s.name (some s.accepted),
          Marker.row commentPrefix .hash s.name (some s.current)) := by
  induction ss with
  | nil => rfl
  | cons s rest ih =>
      obtain ⟨hs, hrest⟩ := List.forall_mem_cons.1 h
      rw [List.map_cons, List.flatMap_cons, hs.hash_changes, ih hrest, List.filter_cons]
      split <;> rfl

/-- A sound section that is accepted is written as its parts with their content accepted. -/
theorem Section.Sound.parts_accept {s : Section} (h : s.Sound) :
    s.accept.parts = s.parts.map Part.accept := by
  cases h with
  | @plain s hclosed =>
      show s.content.lines.1.map Part.line = _
      rw [Section.parts, List.map_map]
      rfl
  | @tracked s hsound =>
      have hcontent : closeLines s.content.lines.1 = s.content := hsound.closed.close_lines_content
      simp [Section.accept, Section.parts, Part.accept, Block.accept, Tracked.block, Tracked.accept, hcontent,
        hsound.current_eq]

namespace Document

variable {d : Document}

/-- The parts of sound sections that are accepted. -/
theorem body_accept (hsidecar : d.sidecar = none) (hsound : ∀ s ∈ d.sections, s.Sound) :
    d.accept.body = d.body.map Part.accept := by
  rw [accept_eq hsidecar, body, body, List.flatMap_map, List.map_flatMap]
  exact List.flatMap_congr fun s hs => (hsound s hs).parts_accept

/-- A document that is accepted is written as its parts with their content accepted. -/
theorem parts_accept (hsidecar : d.sidecar = none) (hsound : ∀ s ∈ d.sections, s.Sound) :
    d.accept.parts = d.parts.map Part.accept := by
  have hproperties : d.accept.propertyParts = d.propertyParts.map Part.accept := by
    rw [accept_eq hsidecar, propertyParts, propertyParts]
    cases d.target <;> cases d.permissionsArgument <;> rfl
  rw [parts, parts, hashbang_accept hsidecar, body_accept hsidecar hsound, hproperties]
  cases d.hashbang? with
  | none => simp
  | some line => cases d.body <;> simp

/-- Nothing is accepted in a document without tracked sections. -/
theorem accept_eq_self (hsidecar : d.sidecar = none) (htracked : d.tracked = []) : d.accept = d := by
  have hsections : d.sections.map (·.accept) = d.sections := by
    refine (List.map_congr_left fun s hs => ?_).trans (List.map_id _)
    cases s with
    | plain s => rfl
    | tracked s => exact absurd htracked (List.ne_nil_of_mem (List.mem_filterMap.2 ⟨_, hs, rfl⟩))
  rw [accept_eq hsidecar, hsections]

/-- Of the lines of a document that is accepted, the hash markers of its modified sections change, from the
accepted digests to those of the contents. -/
theorem Mixed.line_changes_accept (h : d.Mixed commentPrefix) :
    d.accept.write.lines.1.length = d.write.lines.1.length ∧
    d.accept.write.lines.2 = d.write.lines.2 ∧
    lineChanges d.write.lines.1 d.accept.write.lines.1 =
      (d.tracked.filter (·.isModified)).map fun s =>
        (Marker.row commentPrefix .hash s.name (some s.accepted),
          Marker.row commentPrefix .hash s.name (some s.current)) := by
  obtain ⟨rfl, hsidecar, hsound, hproperty, hcommentLine⟩ := h
  by_cases hnames : d.names = []
  · have htracked : d.tracked = [] := List.map_eq_nil_iff.1 hnames
    rw [accept_eq_self hsidecar htracked, line_changes_self, htracked]
    exact ⟨rfl, rfl, rfl⟩
  have hparts := parts_accept hsidecar hsound.orderly.sound
  have haccepted := hsound.accept.orderly.sound
  have hline := (hcommentLine hnames).2
  have hsame : d.accept.commentPrefix = d.commentPrefix ∧ d.accept.finalNewline = d.finalNewline ∧
      d.accept.propertyParts = d.propertyParts ∧ d.accept.sidecar = none := by
    rw [accept_eq hsidecar]
    exact ⟨rfl, rfl, rfl, hsidecar⟩
  obtain ⟨hcomment, hfinal, hproperties, hsidecar'⟩ := hsame
  have hlines := is_line_parts hline hproperty hsound.orderly.sound
  have hlines' := is_line_parts (d := d.accept) (hcomment ▸ hline)
    (fun p hp => hcomment ▸ hproperty p (hproperties ▸ hp)) haccepted
  rw [hcomment, hparts] at hlines'
  obtain ⟨hlength, hflag, hchanges⟩ := Part.line_changes_write hlines hlines' d.finalNewline
  rw [write_eq_of_closed hsidecar fun s hs => (hsound.orderly.sound s hs).closed,
    write_eq_of_closed hsidecar' fun s hs => (haccepted s hs).closed, hcomment, hfinal, hparts]
  rw [blocks_parts, Tracked.hash_changes_of_sound fun s hs => hsound.of_mem_tracked hs] at hchanges
  exact ⟨hlength, hflag, hchanges⟩

/-! ## Documents that arise -/

/-- Without a sidecar, the document is one of its own comment prefix. -/
def Own (d : Document) : Prop := d.sidecar = none → d.Mixed d.commentPrefix

theorem Mixed.own (h : d.Mixed commentPrefix) : d.Own := by
  obtain rfl := h.comment_prefix_eq
  exact fun _ => h

/-- What becomes of a document with a sidecar has one, too. -/
theorem SameFile.own {e : Document} (h : d.SameFile e) (hown : d.Own)
    (hmixed : d.Mixed d.commentPrefix → e.Mixed d.commentPrefix) : e.Own := by
  intro hsidecar
  have hnone : d.sidecar = none := by
    have hpaths := h.sidecar_eq
    rw [hsidecar] at hpaths
    exact Option.map_eq_none_iff.1 hpaths.symm
  exact (hmixed (hown hnone)).own hsidecar

theorem Own.accept (h : d.Own) : d.accept.Own := by
  refine d.accept_same_file.own h fun hmixed => ?_
  rw [accept_eq hmixed.sidecar_eq_none]
  refine hmixed.with_sections hmixed.sound.orderly.accept (fun hne => ?_) d.markers
  rw [names_of_map_accept] at hne
  exact hne

theorem Own.delete {e : Document} {name : Text} (h : d.Own) (hdelete : d.delete? name = some e) :
    e.Own := by
  refine (delete_same_file hdelete).own h fun hmixed => ?_
  obtain ⟨sections, huntrack, rfl⟩ := Option.map_eq_some_iff.1 hdelete
  refine hmixed.with_sections (hmixed.sound.orderly.untracked huntrack) (fun hne hnil => hne ?_) _
  obtain ⟨before, s, after, hsections, -⟩ := untrack_cases huntrack
  have hs : s.name ∈ d.names :=
    List.mem_map_of_mem (List.mem_filterMap.2 ⟨.tracked s, by simp [hsections], rfl⟩)
  rw [hnil] at hs
  cases hs

theorem Own.apply_section (h : d.Own) {candidate : Tracked} (hcandidate : candidate.Sound) :
    (d.applySection candidate).target.Own :=
  (apply_section_same_file d candidate).own h fun hmixed => hmixed.apply_section hcandidate

theorem Own.apply {source : Document} (h : d.Own) (hsource : source.Sound) :
    (d.apply source).target.Own :=
  (apply_same_file d source).own h fun hmixed => hmixed.apply hsource

/-- Every document that arises without a sidecar is one of its own comment prefix. -/
theorem Arises.own (h : Arises d) : d.Own := by
  induction h with
  | read commentPrefix path t isReadOnly =>
      have hlegible := (legible_with_of_text commentPrefix path t).with_read_only isReadOnly
      exact (hlegible.own_plain (sound_of_text commentPrefix path t isReadOnly)).mixed.own
  | loadSidecar path isReadOnly hload => exact fun hsidecar => nomatch hsidecar
  | accept _ ih => exact ih.accept
  | delete _ hdelete ih => exact ih.delete hdelete
  | applySection _ hsource hcandidate ih _ =>
      exact ih.apply_section (hsource.sound.of_mem_tracked hcandidate)
  | apply _ hsource ih _ => exact ih.apply hsource.sound
  | update wanted view _ hcache hsource ih _ _ =>
      exact update_maintains sound_of_load
        (fun d e c hd he hc => hd.apply_section (he.of_mem_tracked hc))
        (fun d e hd he => hd.apply he) ih (fun entry hentry => (hcache entry hentry).sound) wanted
        (fun e he => (hsource e he).sound) view

end Document

/-! ## What accepting changes -/

/-- The section without what was accepted. -/
def Tracked.unaccepted (s : Tracked) : Tracked := { s with accepted := [] }

/-- The section without what was accepted, if it is tracked. -/
def Section.unaccepted : Section → Section
  | .plain s => .plain s
  | .tracked s => .tracked s.unaccepted

/-- The sidecar without what was accepted. -/
def Sidecar.unaccepted (s : Sidecar) : Sidecar := { s with accepted := [], isModified := false }

namespace Document

/-- The document without what was accepted. -/
def unaccepted (d : Document) : Document :=
  { d with sections := d.sections.map (·.unaccepted), sidecar := d.sidecar.map (·.unaccepted) }

variable {d : Document}

/-- Accepting a document changes nothing but what is accepted in it. -/
theorem unaccepted_accept (d : Document) : d.accept.unaccepted = d.unaccepted := by
  have hsection (s : Section) : s.accept.unaccepted = s.unaccepted := by cases s <;> rfl
  unfold accept
  split
  · next s hs =>
      rw [unaccepted, unaccepted, hs]
      rfl
  · rw [unaccepted, unaccepted, List.map_map]
    exact congrArg (fun sections => ({ d with sections, sidecar := d.sidecar.map _ } : Document))
      (List.map_congr_left fun s _ => hsection s)

/-- A sound document changes when it is accepted if it is modified. -/
theorem Sound.change_eq_changed_iff (h : d.Sound) : d.change = .changed ↔ d.isModified = true := by
  cases hsidecar : d.sidecar with
  | none =>
      rw [change_eq hsidecar]
      cases d.isModified <;> simp
  | some s =>
      have hsound : s.isModified = true ↔ s.accepted ≠ s.current := h.sidecar_sound s hsidecar
      rw [change, isModified, hsidecar]
      dsimp only
      rw [hsound, Sidecar.change]
      split <;> simp [*]

/-- Nothing that was accepted is modified, with or without a sidecar. -/
theorem is_modified_of_accept (d : Document) : d.accept.isModified = false := by
  cases hsidecar : d.sidecar with
  | none => exact is_modified_accept hsidecar
  | some s =>
      rw [isModified, accept, hsidecar]
      rfl

/-- What was accepted once is not accepted again. -/
theorem accept_accept (d : Document) : d.accept.accept = d.accept := by
  have hsection (s : Section) : s.accept.accept = s.accept := by cases s <;> rfl
  cases hsidecar : d.sidecar with
  | none =>
      have hnone : d.accept.sidecar = none := by rw [accept_eq hsidecar]; exact hsidecar
      rw [accept_eq hnone, accept_eq hsidecar, List.map_map]
      exact congrArg (fun sections => ({ d with sections } : Document))
        (List.map_congr_left fun s _ => hsection s)
  | some s =>
      rw [accept.eq_1 d, hsidecar]
      rfl

/-- Accepting a document that arises is a change exactly if the document is modified. Afterwards it is not
modified, what is accepted in it are the digests of its contents, and all else is as it was. Accepting it
again changes nothing. A file with a sidecar keeps its text. In the text of any other file, as many lines
as there are modified sections differ from before: the hash marker of each gets the digest of its
content. -/
theorem Arises.accepted_once (h : Arises d) :
    (d.change = .changed ↔ d.isModified = true) ∧ d.accept.isModified = false ∧
    d.accept.unaccepted = d.unaccepted ∧ d.accept.change = .unchanged ∧ d.accept.accept = d.accept ∧
    (∀ s, d.accept.sidecar = some s → s.accepted = Digest.ofBytes s.content ∧
      d.accept.write = d.write) ∧
    (d.sidecar = none → (∀ s ∈ d.accept.tracked, s.accepted = s.current) ∧
      d.accept.write.lines.1.length = d.write.lines.1.length ∧
      d.accept.write.lines.2 = d.write.lines.2 ∧
      lineChanges d.write.lines.1 d.accept.write.lines.1 =
        (d.tracked.filter (·.isModified)).map fun s =>
          (Marker.row d.commentPrefix .hash s.name (some s.accepted),
            Marker.row d.commentPrefix .hash s.name (some s.current))) := by
  have haccepted := h.accept.sound
  refine ⟨h.sound.change_eq_changed_iff, d.is_modified_of_accept, d.unaccepted_accept, ?_,
    d.accept_accept, fun s hs => ?_, fun hsidecar => ⟨?_, (h.own hsidecar).line_changes_accept⟩⟩
  · cases hchange : d.accept.change with
    | unchanged => rfl
    | changed =>
        rw [haccepted.change_eq_changed_iff, d.is_modified_of_accept] at hchange
        cases hchange
  · cases hsidecar : d.sidecar with
    | none => rw [accept_eq hsidecar, hsidecar] at hs; cases hs
    | some s' =>
        rw [accept.eq_1, hsidecar] at hs
        obtain rfl := Option.some.inj hs
        refine ⟨rfl, ?_⟩
        rw [write, write, Document.accept, hsidecar]
        rfl
  · rw [tracked_accept hsidecar]
    exact List.forall_mem_map.2 fun s _ => rfl

/-- A script with a target and a modified section. Its last line is open. -/
def editedScript : Text :=
  "#!/bin/sh\n#... all target t\n#... s begin\n#... s hash 0\nold\n#... s end".toList

/-- In the script, one hash marker gets the digest of its content. -/
theorem edited_script_accepted :
    let d : Document := { (ofText ['#'] none editedScript).1 with isReadOnly := false }
    Arises d ∧ d.change = .changed ∧ d.accept.isModified = false ∧ d.accept.accept = d.accept ∧
      lineChanges d.write.lines.1 d.accept.write.lines.1 =
        [("#... s hash 0".toList,
          "#... s hash 01D09D19C2139A46AEBFB577780D123D7396E97201BC7EAD210A2EBFF8239DEE".toList)] := by
  intro d
  have htracked : d.tracked = [⟨3, 6, ['s'], ['0'], none, "old\n".toList,
      "01D09D19C2139A46AEBFB577780D123D7396E97201BC7EAD210A2EBFF8239DEE".toList⟩] :=
    (tracked_of_lines ['#'] none editedScript.lines.2 editedScript.lines.1).trans (by decide +kernel)
  have hcomment : d.commentPrefix = ['#'] := rfl
  have hsidecar : d.sidecar = none := rfl
  have hd : Arises d := .read ['#'] none editedScript false
  -- The rest holds of any document with this section, so that the text is not read below.
  clear_value d
  have hmodified : d.isModified = true := by
    rw [isModified, hsidecar, htracked]
    decide
  obtain ⟨hchange, hunmodified, -, -, hagain, -, htext⟩ := hd.accepted_once
  obtain ⟨-, -, -, hchanges⟩ := htext hsidecar
  rw [htracked, hcomment] at hchanges
  exact ⟨hd, hchange.2 hmodified, hunmodified, hagain, hchanges.trans (by decide +kernel)⟩

end Document

end TrackedSections
