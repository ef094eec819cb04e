import TrackedSections.Proofs.Document.InPlace
import TrackedSections.Proofs.Merge.Again

/-!
# Ranges after replacements

A target that takes sections moves those after them by as many lines as they grew. `ranges_reread` says that
the sections of a file in canonical form have then, after any such replacements, the ranges with which
they are read back from the text that is written.
-/

namespace TrackedSections

open Text Assembly

/-- Sections in place that move are in place where they moved to. -/
theorem InPlace.shift {k : Nat} {start : Int} {sections : List Section} (h : InPlace k start sections)
    (delta : Int) : InPlace k (start + delta) (sections.map (·.shift delta)) := by
  induction h with
  | nil start => exact .nil _
  | @plain k start s rest hfirst hlast hforward hnext hrest ih =>
      have hend : s.last + 1 + delta = s.last + delta + 1 := by omega
      rw [hend] at ih
      refine .plain (congrArg (· + delta) hfirst) ?_ (Int.add_le_add_right hforward delta) ?_ ih
      · change s.last + delta = start + delta + k + s.content.count '\n' - 1
        omega
      · intro t ht
        rw [List.head?_map] at ht
        obtain ⟨before, hbefore, rfl⟩ := Option.map_eq_some_iff.1 ht
        have htracked := hnext before hbefore
        cases before with
        | plain t => exact absurd rfl htracked
        | tracked t => exact nofun
  | @tracked start s rest hfirst hlast hrest ih =>
      have hend : s.last + 1 + delta = s.last + delta + 1 := by omega
      rw [hend] at ih
      refine .tracked (congrArg (· + delta) hfirst) ?_ ih
      change s.last + delta = start + delta + s.lineCount - 1
      omega

namespace Document

/-- Sections of which one is replaced begin with a tracked one if they did before. -/
theorem Replaces.next {candidate : Tracked} {sections replaced : List Section}
    (h : Replaces candidate sections replaced) (hnext : ∀ t ∈ sections.head?, t.tracked? ≠ none) :
    ∀ t ∈ replaced.head?, t.tracked? ≠ none := by
  cases h with
  | plain hrest => exact absurd rfl (hnext _ rfl)
  | here hname hmodified | tracked hname hrest =>
      intro t ht
      obtain rfl := Option.some.inj ht
      exact nofun

/-- Sections in place stay in place when one is replaced. -/
theorem Replaces.in_place {candidate : Tracked} {sections replaced : List Section}
    (h : Replaces candidate sections replaced) {k : Nat} {start : Int} (hplace : InPlace k start sections) :
    InPlace k start replaced := by
  induction h generalizing k start with
  | @here s rest hname hmodified =>
      cases hplace with
      | tracked hfirst hlast hrest =>
          have hmoved := hrest.shift ((s.take candidate).last - s.last)
          have hend : s.last + 1 + ((s.take candidate).last - s.last) = (s.take candidate).last + 1 := by
            omega
          rw [hend] at hmoved
          exact .tracked hfirst (by rw [← hfirst]; rfl) hmoved
  | plain hreplaces ih =>
      cases hplace with
      | plain hfirst hlast hforward hnext hrest =>
          exact .plain hfirst hlast hforward (hreplaces.next hnext) (ih hrest)
  | tracked hname hreplaces ih =>
      cases hplace with
      | tracked hfirst hlast hrest => exact .tracked hfirst hlast (ih hrest)

end Document

/-! ## Lines outside of blocks -/

/-- The text of a content line. -/
def Part.text? : Part → Option Text
  | .line text => some text
  | .property _ _ | .block _ => none

/-- A part with a text is the line of that text. -/
theorem Part.text_eq_some {p : Part} {text : Text} (h : p.text? = some text) : p = .line text := by
  cases p with
  | line text' => exact congrArg Part.line (Option.some.inj h)
  | property kind argument | block b => cases h

/-- The lines of some parts end with an empty one exactly if the parts do. -/
theorem Part.get_last_lines_of {commentPrefix : Text} {parts : List Part} :
    (linesOf commentPrefix parts).getLast? = some [] ↔ parts.getLast? = some (.line []) := by
  rcases List.eq_nil_or_concat' parts with rfl | ⟨front, p, rfl⟩
  · exact iff_of_false nofun nofun
  · have hne : p.lines commentPrefix ≠ [] := by
      cases p <;> simp [lines, Block.lines]
    have hlast : (linesOf commentPrefix (front ++ [p])).getLast? = (p.lines commentPrefix).getLast? := by
      rw [lines_of_append, linesOf, linesOf, List.flatMap_singleton, List.getLast?_append_of_ne_nil _ hne]
    rw [hlast, List.getLast?_concat]
    refine ⟨fun h => congrArg some (getLast_lines (by rw [h]; rfl)), fun h => ?_⟩
    rw [Option.some.inj h]
    rfl

namespace Document

/-- The content lines outside of blocks are the same when a section is replaced. -/
theorem Replaces.texts_eq {candidate : Tracked} {sections replaced : List Section}
    (h : Replaces candidate sections replaced) : (replaced.flatMap Section.parts).map Part.text? =
      (sections.flatMap Section.parts).map Part.text? := by
  have hshift (delta : Int) (sections : List Section) :
      (sections.map (·.shift delta)).flatMap Section.parts = sections.flatMap Section.parts := by
    rw [List.flatMap_map]
    exact List.flatMap_congr fun s _ => by cases s <;> rfl
  induction h with
  | here hname hmodified =>
      rw [List.flatMap_cons, List.flatMap_cons, hshift]
      rfl
  | plain hrest ih | tracked hname hrest ih =>
      rw [List.flatMap_cons, List.flatMap_cons, List.map_append, List.map_append, ih]

/-- The hashbang is the same when a section is replaced. -/
theorem Replaces.hashbang_eq {d : Document} {candidate : Tracked} {replaced : List Section}
    (h : Replaces candidate d.sections replaced) :
    ({ d with sections := replaced } : Document).hashbang? = d.hashbang? := by
  unfold hashbang?
  generalize d.sections = sections at h
  cases h <;> rfl

/-- A document that shows its hashbang does so when a section is replaced. -/
theorem Replaces.shows_hashbang {d : Document} {candidate : Tracked} {replaced : List Section}
    (h : Replaces candidate d.sections replaced) (hshows : d.ShowsHashbang) :
    ({ d with sections := replaced } : Document).ShowsHashbang := by
  intro first rest hbody hfirst
  rw [h.hashbang_eq]
  have htexts := h.texts_eq
  cases first with
  | line text =>
      have hbody : replaced.flatMap Section.parts = .line text :: rest := hbody
      rw [hbody, List.map_cons, eq_comm, List.map_eq_cons_iff] at htexts
      obtain ⟨first', rest', hbody', htext, -⟩ := htexts
      exact hshows first' rest' hbody' (Part.text_eq_some htext ▸ hfirst)
  | property kind argument | block b => cases hfirst

/-- A legible document that shows its hashbang loses a line when its last content line is empty, not closed
and in no block. -/
theorem Legible.loses_line_iff {d : Document} (h : d.Legible) (hshows : d.ShowsHashbang) :
    d.LosesLine ↔ d.finalNewline = false ∧ (d.body.map Part.text?).getLast? = some (some []) := by
  have hbody : (d.body.map Part.text?).getLast? = some (some []) ↔ d.body.getLast? = some (.line []) := by
    rw [List.getLast?_map, Option.map_eq_some_iff]
    constructor
    · rintro ⟨p, hp, htext⟩
      exact Part.text_eq_some htext ▸ hp
    · intro hp
      exact ⟨_, hp, rfl⟩
  rw [LosesLine, h.lines_closed_text, Part.get_last_lines_of, hbody, List.getLast?_eq_some_iff,
    List.getLast?_eq_some_iff]
  refine and_congr_right fun _ => ?_
  constructor
  · rintro ⟨front, hparts⟩
    refine ⟨front.filter Part.isBody, ?_⟩
    rw [← filter_parts, hparts, List.filter_append]
    rfl
  · rintro ⟨front, hbody⟩
    refine ⟨Part.arrange d.propertyParts front, ?_⟩
    rw [h.parts_eq_arrange hshows, hbody, Part.arrange_concat]

/-- The properties among the parts of a document are as many as it has. -/
theorem property_count_parts (d : Document) : Part.propertyCount d.parts = d.propertyParts.length := by
  obtain ⟨before, after, hbody, hparts⟩ := d.parts_split
  have hnone : ∀ p ∈ before ++ after, ¬ (!p.isBody) = true := fun p hp => by
    simp [is_body_of_mem_body (hbody ▸ hp)]
  have hall : d.propertyParts.countP (!·.isBody) = d.propertyParts.length := by
    rw [propertyParts]
    cases d.target <;> cases d.permissionsArgument <;> rfl
  rw [Part.propertyCount, hparts, List.countP_append, List.countP_append, hall,
    List.countP_eq_zero.2 fun p hp => hnone p (List.mem_append_left _ hp),
    List.countP_eq_zero.2 fun p hp => hnone p (List.mem_append_right _ hp)]
  omega

/-! ## Documents in place -/

/-- The file of a legible document has the lines of its parts, without the last one if that is lost. -/
theorem Legible.lines_write {d : Document} (h : d.Legible) :
    (d.LosesLine → d.write.lines.1 = (Part.linesOf d.commentPrefix d.parts).dropLast) ∧
      (¬ d.LosesLine → d.write.lines.1 = Part.linesOf d.commentPrefix d.parts) := by
  have hline := h.readable.is_line
  rw [LosesLine, h.lines_closed_text, h.write_eq, Part.write]
  cases d.finalNewline with
  | true =>
      refine ⟨fun hloses => absurd hloses.1.symm Bool.false_ne_true, fun _ => ?_⟩
      rw [if_pos rfl, lines_close_lines hline]
  | false =>
      rw [if_neg Bool.false_ne_true, lines_open_last_line hline]
      constructor
      · intro hloses
        rw [hloses.2]
        rfl
      · intro hkeeps
        split
        · next hlast =>
            cases hls : (Part.linesOf d.commentPrefix d.parts).getLast? with
            | none =>
                rw [List.getLast?_eq_none_iff.1 hls]
                rfl
            | some l =>
                rw [hls] at hlast hkeeps
                exact absurd ⟨rfl, congrArg some hlast⟩ hkeeps
        · rfl

/-- A legible document whose text keeps all its lines is read from all its parts after it was written. -/
theorem Legible.reread_parts {d : Document} (h : d.Legible) (hkeeps : ¬ d.LosesLine) (path : Option Path) :
    ∃ closed, ofText d.commentPrefix path d.write =
      ofLines d.commentPrefix path closed (Part.linesOf d.commentPrefix d.parts) := by
  refine ⟨d.write.lines.2, ?_⟩
  rw [← h.lines_write.2 hkeeps]
  rfl

/-- A document in place can be read back, with its hashbang and all its lines, and its sections are in
place. -/
structure Placed (commentPrefix : Text) (d : Document) : Prop where
  legible : d.Legible
  comment_prefix_eq : d.commentPrefix = commentPrefix
  shows_hashbang : d.ShowsHashbang
  keeps_lines : ¬ d.LosesLine
  in_place : InPlace d.propertyParts.length 1 d.sections

variable {commentPrefix : Text}

/-- The sections of a document in place are read back as they are, once it was written. -/
theorem Placed.reread {d : Document} (h : d.Placed commentPrefix) (path : Option Path) :
    (ofText commentPrefix path d.write).1.sections = d.sections := by
  obtain ⟨hlegible, rfl, hshows, hkeeps, hplace⟩ := h
  obtain ⟨closed, hread⟩ := hlegible.reread_parts hkeeps path
  have hreadable := hlegible.readable
  have hreread := in_place_of_lines hreadable (hlegible.arranged_parts hshows).properties_lead path closed
  rw [property_count_parts] at hreread
  have hparts := hreadable.parts_of_lines path closed
  rw [filter_parts] at hparts
  rw [hread]
  exact in_place_unique hreread hplace
    (legible_of_lines d.commentPrefix path closed hreadable.is_line).section_legible
    hlegible.section_legible hparts

/-- A document that was read from the text that it is written as is in place. -/
theorem placed_of_canonical {path : Option Path} {t : Text}
    (hcanonical : (ofText commentPrefix path t).1.write = t) :
    (ofText commentPrefix path t).1.Placed commentPrefix := by
  have hlegible := legible_of_text commentPrefix path t
  have hshows : (ofText commentPrefix path t).1.ShowsHashbang :=
    shows_hashbang_of_lines fun _ hl => is_line_of_mem_lines hl
  have hkeeps : ¬ (ofText commentPrefix path t).1.LosesLine := by
    rintro ⟨hopen, hlast⟩
    -- Behind an empty last line that was left open, the text would be read as closed.
    have hwrite := hlegible.write_eq
    rw [Part.write, hopen, if_neg Bool.false_ne_true, hcanonical] at hwrite
    rw [hlegible.lines_closed_text] at hlast
    have hlines := lines_open_last_line hlegible.readable.is_line
    rw [← hwrite, hlast, Option.getD_some, if_pos rfl] at hlines
    have hclosed : (ofText commentPrefix path t).1.finalNewline = t.lines.2 := rfl
    rw [hclosed, hlines] at hopen
    cases hopen
  refine ⟨hlegible, rfl, hshows, hkeeps, ?_⟩
  obtain ⟨closed, hread⟩ := hlegible.reread_parts hkeeps path
  have hplace := in_place_of_lines hlegible.readable (hlegible.arranged_parts hshows).properties_lead path
    closed
  rw [property_count_parts, ← show _ = ofLines _ path closed _ from hread, hcanonical] at hplace
  exact hplace

/-- A document in place stays in place when it takes a section that can be read back. -/
theorem Placed.apply_section {d : Document} (h : d.Placed commentPrefix) {candidate : Tracked}
    (hcandidate : (Section.tracked candidate).Legible commentPrefix) :
    (d.applySection candidate).target.Placed commentPrefix := by
  obtain ⟨hlegible, rfl, hshows, hkeeps, hplace⟩ := h
  obtain ⟨htaken, hcomment⟩ := apply_section_legible hlegible hcandidate
  rcases apply_section_cases d candidate with ⟨hsame, -⟩ | ⟨-, sections, hreplaces, hdone, -⟩
  · rw [hsame]
    exact ⟨hlegible, rfl, hshows, hkeeps, hplace⟩
  · rw [hdone] at htaken ⊢
    have hshown := hreplaces.shows_hashbang hshows
    refine ⟨htaken, rfl, hshown, ?_, hreplaces.in_place hplace⟩
    rw [hlegible.loses_line_iff hshows] at hkeeps
    rw [htaken.loses_line_iff hshown, body, hreplaces.texts_eq]
    exact hkeeps

/-- A document in place stays in place when it takes sections one after another that can be read back. -/
theorem Placed.apply_each {d : Document} (h : d.Placed commentPrefix) {candidates : List Tracked}
    (hcandidates : ∀ c ∈ candidates, (Section.tracked c).Legible commentPrefix) :
    (d.applyEach candidates).1.Placed commentPrefix :=
  apply_each_maintains (fun c hc _ hd => hd.apply_section (hcandidates c hc)) h

/-- The one section of the name of a candidate is replaced, and those after it move. -/
theorem Replaces.split {candidate : Tracked} {sections replaced : List Section}
    (h : Replaces candidate sections replaced) : ∃ before s after,
      sections = before ++ .tracked s :: after ∧ s.name = candidate.name ∧ s.isModified = false ∧
      replaced = before ++ .tracked (s.take candidate) ::
        after.map (·.shift ((s.take candidate).last - s.last)) := by
  induction h with
  | @here s rest hname hmodified => exact ⟨[], s, rest, rfl, hname, hmodified, rfl⟩
  | @plain s rest replaced hrest ih =>
      obtain ⟨before, t, after, rfl, hname, hmodified, rfl⟩ := ih
      exact ⟨.plain s :: before, t, after, rfl, hname, hmodified, rfl⟩
  | @tracked s rest replaced _ hrest ih =>
      obtain ⟨before, t, after, rfl, hname, hmodified, rfl⟩ := ih
      exact ⟨.tracked s :: before, t, after, rfl, hname, hmodified, rfl⟩

/-- A target that was read from a text which it is written as may take any sections that were read with its
comment prefix, one after another: its sections are always those that are read from the text it is then
written as, with the same ranges. Each section that is refused leaves the target as it is, and each that is
taken replaces one section of its name, moves those after it as far as that one grew, and changes nothing
else. -/
theorem ranges_reread {path : Option Path} {t : Text}
    (hcanonical : (ofText commentPrefix path t).1.write = t) {candidates : List Tracked}
    (hcandidates : ∀ c ∈ candidates, ∃ path u, c ∈ (ofText commentPrefix path u).1.tracked) :
    let d := ((ofText commentPrefix path t).1.applyEach candidates).1
    (∀ path', (ofText commentPrefix path' d.write).1.sections = d.sections) ∧
    ∀ c path' u, c ∈ (ofText commentPrefix path' u).1.tracked →
      ((d.applySection c).isChanged = false → (d.applySection c).target = d) ∧
      ((d.applySection c).isChanged = true → ∃ before s after,
        d.sections = before ++ .tracked s :: after ∧ s.name = c.name ∧
        (d.applySection c).target =
          { d with
            sections := before ++ .tracked (s.take c) ::
              after.map (·.shift ((s.take c).last - s.last)) }) := by
  have hread : ∀ {c : Tracked} {path : Option Path} {u : Text},
      c ∈ (ofText commentPrefix path u).1.tracked → (Section.tracked c).Legible commentPrefix :=
    fun {c path u} hc => legible_of_mem_tracked (fun _ => ⟨legible_of_text commentPrefix path u, rfl⟩) hc
  have hplaced := (placed_of_canonical hcanonical).apply_each fun c hc => by
    obtain ⟨path', u, hmem⟩ := hcandidates c hc
    exact hread hmem
  intro d
  refine ⟨hplaced.reread, fun c path' u hc => ?_⟩
  rcases apply_section_cases d c with ⟨hsame, hfalse⟩ | ⟨-, sections, hreplaces, hdone, htrue⟩
  · exact ⟨fun _ => hsame, fun h => absurd (hfalse.symm.trans h) nofun⟩
  · obtain ⟨before, s, after, hsections, hname, -, rfl⟩ := hreplaces.split
    exact ⟨fun h => absurd (htrue.symm.trans h) nofun,
      fun _ => ⟨before, s, after, hsections, hname, hdone⟩⟩

/-- The document of a text, its sections laid out in one pass and not sorted by their first lines. -/
def laidOut (commentPrefix : Text) (path : Option Path) (t : Text) : Document :=
  { (ofText commentPrefix path t).1 with
    sections := distribute (contentFrom commentPrefix 1 t.lines.1)
      (layOut t.lines.1.length 1 (tracks (sectionMarks commentPrefix t.lines.1))) }

/-- Sections that are laid out in one pass are those of the text. -/
theorem laid_out_eq (commentPrefix : Text) (path : Option Path) (t : Text) :
    laidOut commentPrefix path t = (ofText commentPrefix path t).1 :=
  congrArg (fun sections => { (ofText commentPrefix path t).1 with sections })
    (sections_eq_distribute commentPrefix path t.lines.2 t.lines.1).symm

/-- A section as it was accepted and a line below it, which was left open. -/
def stackedTarget : Text :=
  ("#... s begin\n#... s hash 01D09D19C2139A46AEBFB577780D123D7396E97201BC7EAD210A2EBFF8239DEE\n" ++
    "old\n#... s end\nown").toList

/-- A source whose only section has another line and names a source of its own. -/
def grownSource : Text :=
  ("#... s begin\n#... s hash 7109BE903201B622FDC507C6696D3537B31BA22B572853B7763737B067B3317D\n" ++
    "#... s source g\nnew\nmore\n#... s end\n").toList

/-- The line below a section that grows moves two lines down, and is read back there. -/
theorem stacked_ranges_reread :
    let target := (ofText ['#'] none stackedTarget).1
    let candidates := (ofText ['#'] none grownSource).1.tracked
    let d := (target.applyEach candidates).1
    target.write = stackedTarget ∧ d.sections.map (fun s => (s.first, s.last)) = [(1, 6), (7, 7)] ∧
      ∀ path', (ofText ['#'] path' d.write).1.sections = d.sections := by
  have hread (t u : Text) (hwrite : (ofText ['#'] none t).1.write = t) :=
    (ranges_reread hwrite fun _ (hc : _ ∈ (ofText ['#'] none u).1.tracked) => ⟨none, u, hc⟩).1
  dsimp only
  have htarget : (ofText ['#'] none stackedTarget).1 = laidOut ['#'] none stackedTarget :=
    (laid_out_eq _ _ _).symm
  have hwrite : (ofText ['#'] none stackedTarget).1.write = stackedTarget := by
    rw [htarget]
    decide +kernel
  refine ⟨hwrite, ?_, hread stackedTarget grownSource hwrite⟩
  rw [htarget]
  decide +kernel

end Document

end TrackedSections
