import TrackedSections.Proofs.Document.Canonical
import TrackedSections.Proofs.Merge.Uncompiled

/-!
# Taking sections again

A section is settled for a candidate when taking the candidate changes no more than its place. Read
`apply_each_settled` first: after sections were taken one after another, all of them are settled, and
then taking them again leaves the text as it is (`write_of_settled`).
-/

namespace TrackedSections

open Text Assembly

/-- A section wherever it stands. -/
def Section.unplaced : Section → Section
  | .plain s => .plain { s with first := 0, last := 0 }
  | .tracked s => .tracked s.unplaced

namespace Section

/-- A section that moves is the same wherever it stands. -/
theorem unplaced_shift (delta : Int) (s : Section) : (s.shift delta).unplaced = s.unplaced := by
  cases s <;> rfl

/-- A section is written as the same text wherever it stands. -/
theorem write_unplaced (commentPrefix : Text) (s : Section) :
    s.unplaced.write commentPrefix = s.write commentPrefix := by
  cases s <;> rfl

/-- A section is tracked wherever it stands. -/
theorem tracked_unplaced (s : Section) : s.unplaced.tracked? = s.tracked?.map (·.unplaced) := by
  cases s <;> rfl

end Section

namespace Tracked

/-- What is taken does not depend on where the section stands. -/
theorem unplaced_take (s candidate : Tracked) :
    (s.unplaced.take candidate).unplaced = (s.take candidate).unplaced :=
  rfl

/-- Taking a candidate twice is taking it once. -/
theorem unplaced_take_take (s candidate : Tracked) :
    ((s.take candidate).take candidate).unplaced = (s.take candidate).unplaced := by
  cases hsource : candidate.source <;> simp [take, unplaced, hsource]

end Tracked

namespace Document

/-- The tracked sections among some sections. -/
def trackedOf (sections : List Section) : List Tracked := sections.filterMap (·.tracked?)

/-- Sections that are the same wherever they stand have the same tracked ones. -/
theorem tracked_of_unplaced {sections sections' : List Section}
    (h : sections'.map (·.unplaced) = sections.map (·.unplaced)) :
    (trackedOf sections').map (·.unplaced) = (trackedOf sections).map (·.unplaced) := by
  have htracked (sections : List Section) : (trackedOf sections).map (·.unplaced) =
      (sections.map (·.unplaced)).filterMap (·.tracked?) := by
    rw [trackedOf, List.map_filterMap, List.filterMap_map]
    refine List.filterMap_congr fun s _ => ?_
    exact (Section.tracked_unplaced s).symm
  rw [htracked, htracked, h]

/-- The text of a document does not depend on where its sections stand. -/
theorem closed_text_map_unplaced (d : Document) :
    ({ d with sections := d.sections.map (·.unplaced) } : Document).closedText = d.closedText := by
  have hwrite (sections : List Section) :
      (sections.map (·.unplaced)).flatMap (·.write d.commentPrefix) =
        sections.flatMap (·.write d.commentPrefix) := by
    rw [List.flatMap_map]
    exact List.flatMap_congr fun s _ => Section.write_unplaced _ s
  cases hsections : d.sections with
  | nil => simp [closedText, hashbang?, hsections, properties]
  | cons s rest =>
      have hrest := hwrite (s :: rest)
      cases s with
      | plain s =>
          rw [List.map_cons, Section.unplaced] at hrest ⊢
          by_cases hhashbang : isHashbang s.content.firstLine = true
          · simpa [closedText, hashbang?, hsections, hhashbang, properties, Section.content]
              using hwrite rest
          · simpa [closedText, hashbang?, hsections, hhashbang, properties] using hrest
      | tracked s =>
          rw [List.map_cons, Section.unplaced] at hrest ⊢
          simpa [closedText, hashbang?, hsections, properties] using hrest

/-- A document with the same sections wherever they stand is written as the same text. -/
theorem write_of_unplaced {d : Document} {sections : List Section}
    (h : sections.map (·.unplaced) = d.sections.map (·.unplaced)) :
    ({ d with sections } : Document).write = d.write := by
  have htext : ({ d with sections } : Document).closedText = d.closedText := by
    rw [← closed_text_map_unplaced d, ← closed_text_map_unplaced { d with sections }, h]
  rw [write, write, htext]

/-! ## Settled sections -/

/-- Of some sections, those that may take a candidate have all of it already. -/
def Settled (candidate : Tracked) (ts : List Tracked) : Prop :=
  ∀ s ∈ ts, s.name = candidate.name → s.isModified = false →
    (s.take candidate).unplaced = s.unplaced

/-- Sections that are the same wherever they stand are settled for the same candidates. -/
theorem Settled.of_unplaced {candidate : Tracked} {ts ts' : List Tracked} (h : Settled candidate ts)
    (hsame : ts'.map (·.unplaced) = ts.map (·.unplaced)) : Settled candidate ts' := by
  intro s' hs' hname hmodified
  obtain ⟨s, hs, hunplaced⟩ : ∃ s ∈ ts, s.unplaced = s'.unplaced :=
    List.mem_map.1 (hsame ▸ List.mem_map_of_mem hs')
  have hname' : s.unplaced.name = candidate.name := hunplaced ▸ hname
  have hmodified' : s.unplaced.isModified = false := hunplaced ▸ hmodified
  have htake := h s hs hname' hmodified'
  rw [← s'.unplaced_take, ← hunplaced, s.unplaced_take]
  exact htake

/-- The name of a tracked section is among the names. -/
theorem name_mem_names_of {sections : List Section} {s : Tracked} (h : s ∈ trackedOf sections) :
    s.name ∈ namesOf sections :=
  List.mem_map_of_mem h

/-- A section is found under each name of a document. -/
theorem exists_get_of_mem_names {d : Document} {name : Text} (h : name ∈ d.names) :
    ∃ s, d.get? name = some s := by
  obtain ⟨s, hs, hname⟩ := List.mem_map.1 h
  refine Option.isSome_iff_exists.1 (List.find?_isSome.2 ⟨s, hs, ?_⟩)
  exact decide_eq_true hname

/-- Without a section of the name of a candidate, all are settled for it. -/
theorem settled_of_not_mem {candidate : Tracked} {sections : List Section}
    (h : candidate.name ∉ namesOf sections) : Settled candidate (trackedOf sections) :=
  fun _ hs hname _ => absurd (hname ▸ name_mem_names_of hs) h

/-- A settled section in front is settled together with those after it. -/
theorem settled_tracked_cons {candidate s : Tracked} {rest : List Section}
    (hs : s.name = candidate.name → s.isModified = false →
      (s.take candidate).unplaced = s.unplaced)
    (hrest : Settled candidate (trackedOf rest)) :
    Settled candidate (trackedOf (.tracked s :: rest)) := by
  intro t ht
  rcases List.mem_cons.1 ht with rfl | ht
  · exact hs
  · exact hrest t ht

/-- Sections that move stay settled. -/
theorem Settled.map_shift {candidate : Tracked} {rest : List Section}
    (h : Settled candidate (trackedOf rest)) (delta : Int) :
    Settled candidate (trackedOf (rest.map (·.shift delta))) := by
  refine h.of_unplaced (tracked_of_unplaced ?_)
  rw [List.map_map]
  exact List.map_congr_left fun s _ => Section.unplaced_shift delta s

/-- Sections of which one took a candidate are settled for it. -/
theorem Replaces.settled {candidate : Tracked} {sections replaced : List Section}
    (h : Replaces candidate sections replaced) (hnodup : (namesOf sections).Nodup) :
    Settled candidate (trackedOf replaced) := by
  induction h with
  | @here s rest hname hmodified =>
      have hrest : candidate.name ∉ namesOf rest := hname ▸ (List.nodup_cons.1 hnodup).1
      exact settled_tracked_cons (fun _ _ => s.unplaced_take_take candidate)
        ((settled_of_not_mem hrest).map_shift _)
  | plain hrest ih => exact ih hnodup
  | tracked hname hrest ih =>
      exact settled_tracked_cons (fun h => absurd h hname) (ih (List.nodup_cons.1 hnodup).2)

/-- Sections of which one took a candidate are settled for another candidate if they were before. -/
theorem Replaces.settled_other {candidate other : Tracked} {sections replaced : List Section}
    (h : Replaces other sections replaced) (hne : other.name ≠ candidate.name)
    (hsettled : Settled candidate (trackedOf sections)) : Settled candidate (trackedOf replaced) := by
  induction h with
  | @here s rest hname hmodified =>
      refine settled_tracked_cons (fun h => absurd (hname.symm.trans h) hne) ?_
      exact Settled.map_shift (fun t ht => hsettled t (List.mem_cons_of_mem _ ht)) _
  | plain hrest ih => exact ih hsettled
  | @tracked s rest replaced hname hrest ih =>
      exact settled_tracked_cons (hsettled s List.mem_cons_self)
        (ih fun t ht => hsettled t (List.mem_cons_of_mem _ ht))

/-- When nothing can be replaced, all sections are settled. -/
theorem settled_of_replace {candidate : Tracked} {sections : List Section}
    (hnodup : (namesOf sections).Nodup)
    (h : ∀ replaced, replace candidate sections ≠ .done replaced) :
    Settled candidate (trackedOf sections) := by
  induction sections with
  | nil => exact fun s hs => nomatch hs
  | cons s rest ih =>
      have hcons {s : Section} (h : ∀ replaced, (replace candidate rest).cons s ≠ .done replaced) :
          ∀ replaced, replace candidate rest ≠ .done replaced :=
        fun replaced hdone => h (s :: replaced) (by rw [hdone]; rfl)
      cases s with
      | plain s => exact ih hnodup (hcons h)
      | tracked s =>
          obtain ⟨hname, hnodup⟩ := List.nodup_cons.1 hnodup
          by_cases hsame : s.name = candidate.name
          · refine settled_tracked_cons (fun _ hmodified => ?_) (settled_of_not_mem (hsame ▸ hname))
            have hdone : replace candidate (.tracked s :: rest) = .done (.tracked (s.take candidate) ::
                rest.map (·.shift ((s.take candidate).last - s.last))) := by
              rw [replace, if_pos hsame, hmodified, if_neg Bool.false_ne_true]
            exact absurd hdone (h _)
          · have hreplace : replace candidate (.tracked s :: rest) =
                (replace candidate rest).cons (.tracked s) := by rw [replace, if_neg hsame]
            exact settled_tracked_cons (fun h => absurd h hsame) (ih hnodup (hcons (hreplace ▸ h)))

/-- A document keeps its names when it takes a section. -/
theorem names_apply_section (target : Document) (candidate : Tracked) :
    (target.applySection candidate).target.names = target.names := by
  rcases apply_section_cases target candidate with ⟨hsame, -⟩ | ⟨-, sections, hreplaces, hdone, -⟩
  · rw [hsame]
  · rw [hdone]
    exact hreplaces.names_eq

/-- A document keeps its names when it takes sections one after another. -/
theorem names_apply_each (target : Document) (candidates : List Tracked) :
    (target.applyEach candidates).1.names = target.names :=
  apply_each_maintains (p := fun d => d.names = target.names)
    (fun c _ d hd => (names_apply_section d c).trans hd) rfl

/-- After a candidate that is not modified was taken, all sections are settled for it. -/
theorem apply_section_settled {target : Document} (hsidecar : target.sidecar = none)
    (hnodup : target.names.Nodup) {candidate : Tracked} (hmodified : candidate.isModified = false) :
    Settled candidate (target.applySection candidate).target.tracked := by
  have hno : target.hasSidecar = false := by rw [hasSidecar, hsidecar]; rfl
  rw [applySection, hno, if_neg Bool.false_ne_true, hmodified, if_neg Bool.false_ne_true]
  split
  · next habsent => exact settled_of_replace hnodup fun _ h => by cases habsent.symm.trans h
  · next hkept => exact settled_of_replace hnodup fun _ h => by cases hkept.symm.trans h
  · next hdone => exact (replaces_of_done hdone).settled hnodup

/-- Taking other candidates keeps the sections settled. -/
theorem apply_each_settled_other {target : Document} {candidates : List Tracked}
    {candidate : Tracked} (hne : ∀ c ∈ candidates, c.name ≠ candidate.name)
    (h : Settled candidate target.tracked) :
    Settled candidate (target.applyEach candidates).1.tracked := by
  refine apply_each_maintains (p := fun d => Settled candidate d.tracked) ?_ h
  intro c hc d hd
  rcases apply_section_cases d c with ⟨hsame, -⟩ | ⟨-, sections, hreplaces, hdone, -⟩
  · rw [hsame]
    exact hd
  · rw [hdone]
    exact hreplaces.settled_other (hne c hc) hd

/-- After sections with different names were taken one after another, all sections are settled for those
that are not modified. -/
theorem apply_each_settled {target : Document} (hsidecar : target.sidecar = none)
    (hnodup : target.names.Nodup) {candidates : List Tracked}
    (hnames : (candidates.map (·.name)).Nodup) :
    ∀ c ∈ candidates, c.isModified = false →
      Settled c (target.applyEach candidates).1.tracked := by
  induction candidates generalizing target with
  | nil => exact fun c hc => nomatch hc
  | cons c rest ih =>
      obtain ⟨hname, hnames⟩ := List.nodup_cons.1 hnames
      obtain ⟨sections, hframe⟩ := apply_section_frame target c
      have hfirst : (target.applySection c).target.sidecar = none := by rw [hframe]; exact hsidecar
      refine List.forall_mem_cons.2 ⟨fun hmodified => ?_, ih hfirst ?_ hnames⟩
      · have hfirstSettled := apply_section_settled hsidecar hnodup hmodified
        have hother : ∀ c' ∈ rest, c'.name ≠ c.name := fun c' hc' heq =>
          hname (List.mem_map.2 ⟨c', hc', heq⟩)
        show Settled c ((target.applySection c).target.applyEach rest).1.tracked
        exact apply_each_settled_other hother hfirstSettled
      · rw [names_apply_section]
        exact hnodup

/-- Taking a candidate for which all sections are settled changes no more than places. -/
theorem Replaces.unplaced_eq {candidate : Tracked} {sections replaced : List Section}
    (h : Replaces candidate sections replaced) (hsettled : Settled candidate (trackedOf sections)) :
    replaced.map (·.unplaced) = sections.map (·.unplaced) := by
  induction h with
  | @here s rest hname hmodified =>
      have hs : (s.take candidate).unplaced = s.unplaced :=
        hsettled s List.mem_cons_self hname hmodified
      have hrest : (rest.map (·.shift ((s.take candidate).last - s.last))).map (·.unplaced) =
          rest.map (·.unplaced) := by
        rw [List.map_map]
        exact List.map_congr_left fun t _ => Section.unplaced_shift _ t
      rw [List.map_cons, List.map_cons, hrest, Section.unplaced, Section.unplaced, hs]
  | plain hrest ih => rw [List.map_cons, List.map_cons, ih hsettled]
  | tracked hname hrest ih =>
      rw [List.map_cons, List.map_cons, ih fun t ht => hsettled t (List.mem_cons_of_mem _ ht)]

/-- Taking candidates for which all sections are settled leaves the text as it is. -/
theorem write_of_settled {target : Document} {candidates : List Tracked}
    (h : ∀ c ∈ candidates, c.isModified = false → Settled c target.tracked) :
    (target.applyEach candidates).1.write = target.write := by
  induction candidates generalizing target with
  | nil => rfl
  | cons c rest ih =>
      obtain ⟨hc, hrest⟩ := List.forall_mem_cons.1 h
      show ((target.applySection c).target.applyEach rest).1.write = target.write
      rcases apply_section_cases target c with ⟨hsame, -⟩ | ⟨hmodified, sections, hreplaces, hdone, -⟩
      · rw [hsame]
        exact ih hrest
      · have hunplaced := hreplaces.unplaced_eq (hc hmodified)
        rw [hdone, ih fun c' hc' hmodified' =>
          (hrest c' hc' hmodified').of_unplaced (tracked_of_unplaced hunplaced)]
        exact write_of_unplaced hunplaced

end Document

end TrackedSections
