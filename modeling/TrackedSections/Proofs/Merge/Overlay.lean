import Mathlib.Data.List.Forall2
import TrackedSections.Proofs.Merge.Settled

/-!
# Taking sections one after another, in one pass

A section that is taken moves all those after it, and the next one is taken where it stands then.
`overlay` is what that comes to in one pass over the sections as they were. Read `apply_section_taking`
first: a document that took some candidates and takes one more is the one-pass result for all of
them. `TakesEach` says what that is for each section alone.
-/

namespace TrackedSections

namespace Tracked

/-- The section `delta` lines further down. -/
def shift (delta : Int) (s : Tracked) : Tracked :=
  { s with first := s.first + delta, last := s.last + delta }

@[simp] theorem name_shift (delta : Int) (s : Tracked) : (s.shift delta).name = s.name := rfl

@[simp] theorem last_shift (delta : Int) (s : Tracked) : (s.shift delta).last = s.last + delta := rfl

theorem shift_shift (delta more : Int) (s : Tracked) :
    (s.shift delta).shift more = s.shift (delta + more) := by
  simp only [shift, Int.add_assoc]

/-- A section that moved takes what it takes where it was, moved as far. -/
theorem take_shift (delta : Int) (s c : Tracked) : (s.shift delta).take c = (s.take c).shift delta := by
  have hlast : s.first + delta + (s.take c).lineCount - 1 =
      s.first + (s.take c).lineCount - 1 + delta := by omega
  exact congrArg (fun last => { s.take c with first := s.first + delta, last }) hlast

/-- Taking a candidate twice is taking it once, also where the section stands. -/
theorem take_take (s c : Tracked) : (s.take c).take c = s.take c := by
  cases hsource : c.source <;> simp [take, lineCount, hsource]

/-- What becomes of a section that takes a candidate, or none. -/
def takeAny (s : Tracked) : Option Tracked → Tracked
  | none => s
  | some c => s.take c

@[simp] theorem name_take_any (s : Tracked) (picked : Option Tracked) :
    (s.takeAny picked).name = s.name := by
  cases picked <;> rfl

end Tracked

namespace Section

theorem shift_zero (s : Section) : s.shift 0 = s := by
  cases s <;> simp only [shift, Int.add_zero]

theorem shift_shift (delta more : Int) (s : Section) :
    (s.shift delta).shift more = s.shift (delta + more) := by
  cases s <;> simp only [shift, Int.add_assoc]

theorem shift_tracked (delta : Int) (s : Tracked) :
    (Section.tracked s).shift delta = .tracked (s.shift delta) :=
  rfl

/-- What may become of a section when `Offers s c` says that the section `s` takes the candidate `c`. It
takes a candidate that it is offered, with the source of its own if that names none, and keeps all but
its place otherwise. -/
inductive Merged (Offers : Tracked → Tracked → Prop) : Section → Section → Prop where
  | plain (s : Plain) (first last : Int) :
      Merged Offers (.plain s) (.plain { s with first, last })
  | kept {s : Tracked} (first last : Int) (hnone : ∀ c, ¬ Offers s c) :
      Merged Offers (.tracked s) (.tracked { s with first, last })
  | taken {s c : Tracked} (first last : Int) (hoffer : Offers s c) :
      Merged Offers (.tracked s) (.tracked
        { s with
          first, last
          content := c.content
          current := c.current
          accepted := c.accepted
          source := c.source.or s.source })

end Section

namespace Document

/-- The candidate that a section takes from some candidates: the first of its name that is not modified,
if the section itself is not. -/
def picks (candidates : List Tracked) (s : Tracked) : Option Tracked :=
  if s.isModified then none else candidates.find? fun c => c.name = s.name && !c.isModified

/-- The sections after each took what is picked for it. Those after a section move by as many lines as it
grew. -/
def overlay (pick : Tracked → Option Tracked) : Int → List Section → List Section
  | _, [] => []
  | delta, .plain s :: rest => (Section.plain s).shift delta :: overlay pick delta rest
  | delta, .tracked s :: rest =>
    let s' := s.takeAny (pick s)
    .tracked (s'.shift delta) :: overlay pick (delta + (s'.last - s.last)) rest

/-- The document after its sections took what they could from some candidates. -/
def taking (target : Document) (candidates : List Tracked) : Document :=
  { target with sections := overlay (picks candidates) 0 target.sections }

/-! ## What is picked -/

/-- A candidate is picked when neither it nor the section was edited and both have one name. -/
theorem picks_eq_some {candidates : List Tracked} {s c : Tracked} (h : picks candidates s = some c) :
    c ∈ candidates ∧ c.name = s.name ∧ s.isModified = false ∧ c.isModified = false := by
  unfold picks at h
  split at h
  · cases h
  · next hmodified =>
      have hc := List.find?_some h
      rw [Bool.and_eq_true, decide_eq_true_iff, Bool.not_eq_true'] at hc
      exact ⟨List.mem_of_find?_eq_some h, hc.1, by simpa using hmodified, hc.2⟩

/-- There is one candidate for each name, though maybe several times. -/
def Unambiguous (candidates : List Tracked) : Prop :=
  ∀ c ∈ candidates, ∀ c' ∈ candidates, c.name = c'.name → c = c'

/-- When all candidates of one name are one candidate, a section takes it exactly if neither was
edited. -/
theorem picks_eq_some_iff {candidates : List Tracked} (hsame : Unambiguous candidates) {s c : Tracked} :
    picks candidates s = some c ↔
      c ∈ candidates ∧ c.name = s.name ∧ s.isModified = false ∧ c.isModified = false := by
  refine ⟨picks_eq_some, fun ⟨hmem, hname, hs, hc⟩ => ?_⟩
  cases hpick : picks candidates s with
  | some c' =>
      obtain ⟨hmem', hname', -⟩ := picks_eq_some hpick
      exact congrArg some (hsame c' hmem' c hmem (hname'.trans hname.symm))
  | none =>
      rw [picks, hs, if_neg Bool.false_ne_true, List.find?_eq_none] at hpick
      exact absurd (by simp [hname, hc]) (hpick c hmem)

/-- One more candidate is picked only when none of those before it is. -/
theorem picks_append (done : List Tracked) (c s : Tracked) :
    picks (done ++ [c]) s = (picks done s).or (picks [c] s) := by
  unfold picks
  split
  · rfl
  · rw [List.find?_append]

/-- A single candidate is picked by the sections of its name, when neither was edited. -/
theorem picks_singleton {c s : Tracked} (hname : s.name = c.name) (hs : s.isModified = false)
    (hc : c.isModified = false) : picks [c] s = some c := by
  simp [picks, hs, hc, hname]

/-- A section of another name does not pick a candidate. -/
theorem picks_singleton_of_ne {c s : Tracked} (hname : s.name ≠ c.name) : picks [c] s = none := by
  simp [picks, Ne.symm hname]

/-- A modified candidate is picked by no section. -/
theorem picks_singleton_of_modified {c : Tracked} (hc : c.isModified = true) (s : Tracked) :
    picks [c] s = none := by
  simp [picks, hc]

/-- A section of another name picks what it picked without the candidate. -/
theorem picks_append_of_ne {done : List Tracked} {c s : Tracked} (hname : s.name ≠ c.name) :
    picks (done ++ [c]) s = picks done s := by
  rw [picks_append, picks_singleton_of_ne hname, Option.or_none]

/-! ## One pass -/

variable {pick pick' : Tracked → Option Tracked}

/-- Only what is picked for the sections that there are matters. -/
theorem overlay_congr {sections : List Section} (h : ∀ s ∈ trackedOf sections, pick s = pick' s)
    (delta : Int) : overlay pick delta sections = overlay pick' delta sections := by
  induction sections generalizing delta with
  | nil => rfl
  | cons s rest ih =>
      cases s with
      | plain s => exact congrArg (_ :: ·) (ih h delta)
      | tracked s =>
          obtain ⟨hs, hrest⟩ := List.forall_mem_cons.1 h
          rw [overlay, overlay, hs, ih hrest]

/-- All sections move together. -/
theorem overlay_shift (delta more : Int) (sections : List Section) :
    (overlay pick delta sections).map (·.shift more) = overlay pick (delta + more) sections := by
  induction sections generalizing delta with
  | nil => rfl
  | cons s rest ih =>
      cases s with
      | plain s => rw [overlay, overlay, List.map_cons, Section.shift_shift, ih]
      | tracked s =>
          rw [overlay, overlay, List.map_cons, ih, Section.shift_tracked, Tracked.shift_shift,
            Int.add_right_comm]

/-- Where nothing is picked, all sections stay. -/
theorem overlay_none (sections : List Section) : overlay (fun _ => none) 0 sections = sections := by
  induction sections with
  | nil => rfl
  | cons s rest ih =>
      cases s with
      | plain s => rw [overlay, Section.shift_zero, ih]
      | tracked s =>
          rw [overlay, Tracked.takeAny, Int.sub_self, Int.add_zero, ih, ← Section.shift_tracked,
            Section.shift_zero]

/-- Without candidates, a document stays as it is. -/
theorem taking_nil (target : Document) : target.taking [] = target := by
  have hpick : picks [] = fun _ => none := funext fun s => by simp [picks]
  rw [taking, hpick, overlay_none]

/-- One pass makes of each section what it takes. -/
theorem merged_of_overlay {Offers : Tracked → Tracked → Prop} {sections : List Section}
    (h : ∀ s ∈ trackedOf sections, ∀ c, Offers s c ↔ pick s = some c) (delta : Int) :
    List.Forall₂ (Section.Merged Offers) sections (overlay pick delta sections) := by
  induction sections generalizing delta with
  | nil => exact .nil
  | cons s rest ih =>
      cases s with
      | plain s => exact .cons (.plain s _ _) (ih h delta)
      | tracked s =>
          obtain ⟨hs, hrest⟩ := List.forall_mem_cons.1 h
          refine .cons ?_ (ih hrest _)
          cases hpick : pick s with
          | none => exact .kept _ _ fun c hc => by cases hpick.symm.trans ((hs c).1 hc)
          | some c => exact .taken _ _ ((hs c).2 hpick)

/-! ## One more candidate -/

/-- A section that takes a candidate after others takes that one, and cannot be told apart from one that took
only it, when all that it may have taken before is the same candidate. -/
theorem take_any_take {done : List Tracked} {c s : Tracked} (hname : s.name = c.name)
    (hs : s.isModified = false) (hc : c.isModified = false)
    (hsame : ∀ c' ∈ done, c'.name = c.name → c' = c) :
    (s.takeAny (picks done s)).isModified = false ∧ (s.takeAny (picks done s)).take c = s.take c ∧
      picks (done ++ [c]) s = some c := by
  rw [picks_append, picks_singleton hname hs hc]
  cases hpick : picks done s with
  | none => exact ⟨hs, rfl, rfl⟩
  | some c' =>
      obtain ⟨hmem, hname', -⟩ := picks_eq_some hpick
      obtain rfl := hsame c' hmem (hname'.trans hname)
      exact ⟨hc, s.take_take c', rfl⟩

/-- The first section of the name of a candidate takes it, if it was not edited. -/
theorem replace_here {s c : Tracked} (hname : s.name = c.name) (hs : s.isModified = false)
    (rest : List Section) : replace c (.tracked s :: rest) =
      .done (.tracked (s.take c) :: rest.map (·.shift ((s.take c).last - s.last))) := by
  rw [replace, if_pos hname, hs, if_neg Bool.false_ne_true]

/-- The first section of the name of a candidate stays, if it was edited. -/
theorem replace_modified {s c : Tracked} (hname : s.name = c.name) (hs : s.isModified = true)
    (rest : List Section) : replace c (.tracked s :: rest) = .kept s := by
  rw [replace, if_pos hname, hs, if_pos rfl]

/-- A section of another name is passed over. -/
theorem replace_other {s c : Tracked} (hname : s.name ≠ c.name) (rest : List Section) :
    replace c (.tracked s :: rest) = (replace c rest).cons (.tracked s) := by
  rw [replace, if_neg hname]

/-- A replacement that cannot be done cannot be done behind another section. -/
theorem replacement_cons_ne_done {r : Replacement} (h : ∀ replaced, r ≠ .done replaced) (s : Section)
    (replaced : List Section) : r.cons s ≠ .done replaced := by
  intro hdone
  obtain ⟨rest, hrest, -⟩ := replacement_cons_done hdone
  exact h rest hrest

/-- Replacing in the one-pass result gives the one-pass result for one more candidate if there is a section
for it, and cannot be done otherwise. A candidate that was taken already is taken again where it
stands. -/
theorem replace_overlay {done : List Tracked} {c : Tracked} (hc : c.isModified = false)
    (hsame : ∀ c' ∈ done, c'.name = c.name → c' = c) {sections : List Section}
    (hnodup : (namesOf sections).Nodup) (delta : Int) :
    ((∃ s ∈ trackedOf sections, picks [c] s = some c) ∧
      replace c (overlay (picks done) delta sections) =
        .done (overlay (picks (done ++ [c])) delta sections)) ∨
    ((∀ s ∈ trackedOf sections, picks [c] s = none) ∧
      ∀ replaced, replace c (overlay (picks done) delta sections) ≠ .done replaced) := by
  induction sections generalizing delta with
  | nil => exact .inr ⟨fun _ hs => (List.not_mem_nil hs).elim, fun _ h => by cases h⟩
  | cons s rest ih =>
      cases s with
      | plain s =>
          rcases ih hnodup delta with ⟨hoffered, hdone⟩ | ⟨hnone, hnot⟩
          · exact .inl ⟨hoffered, congrArg (Replacement.cons _) hdone⟩
          · exact .inr ⟨hnone, replacement_cons_ne_done hnot _⟩
      | tracked s =>
          obtain ⟨hfresh, hnodup⟩ : s.name ∉ namesOf rest ∧ (namesOf rest).Nodup :=
            List.nodup_cons.1 hnodup
          rw [overlay, overlay]
          by_cases hname : s.name = c.name
          · have hother : ∀ t ∈ trackedOf rest, t.name ≠ c.name := fun t ht h =>
              hfresh (hname.trans h.symm ▸ name_mem_names_of ht)
            have hname' : ((s.takeAny (picks done s)).shift delta).name = c.name := by
              rw [Tracked.name_shift, Tracked.name_take_any, hname]
            cases hs : s.isModified with
            | true =>
                have hnone (candidates : List Tracked) : picks candidates s = none := by
                  rw [picks, hs, if_pos rfl]
                refine .inr ⟨List.forall_mem_cons.2 ⟨hnone [c], fun t ht =>
                  picks_singleton_of_ne (hother t ht)⟩, fun replaced h => ?_⟩
                rw [replace_modified hname' (by rw [hnone]; exact hs)] at h
                cases h
            | false =>
                -- The section may have taken the candidate before; then it takes it again in the same place.
                obtain ⟨hs', htake, hpicked⟩ := take_any_take hname hs hc hsame
                refine .inl ⟨⟨s, List.mem_cons_self, picks_singleton hname hs hc⟩, ?_⟩
                rw [replace_here hname' hs', Tracked.take_shift, htake, hpicked, Tracked.takeAny,
                  overlay_shift, overlay_congr fun t ht => picks_append_of_ne (hother t ht)]
                have hmove (last : Int) :
                    delta + (last - s.last) + ((s.take c).last + delta - (last + delta)) =
                      delta + ((s.take c).last - s.last) := by omega
                rw [Tracked.last_shift, Tracked.last_shift, hmove]
          · have hname' : ((s.takeAny (picks done s)).shift delta).name ≠ c.name := by
              rw [Tracked.name_shift, Tracked.name_take_any]
              exact hname
            rw [replace_other hname', picks_append_of_ne hname]
            rcases ih hnodup (delta + ((s.takeAny (picks done s)).last - s.last)) with
              ⟨⟨t, ht, hpick⟩, hdone⟩ | ⟨hnone, hnot⟩
            · exact .inl ⟨⟨t, List.mem_cons_of_mem _ ht, hpick⟩, congrArg (Replacement.cons _) hdone⟩
            · exact .inr ⟨List.forall_mem_cons.2 ⟨picks_singleton_of_ne hname, hnone⟩,
                replacement_cons_ne_done hnot _⟩

variable {target : Document}

/-- A document that took some candidates and takes one more is the one-pass result for all of them. It
changes exactly if some section picks the candidate. -/
theorem apply_section_taking (hsidecar : target.sidecar = none) (hnodup : target.names.Nodup)
    {done : List Tracked} {c : Tracked} (hsame : ∀ c' ∈ done, c'.name = c.name → c' = c) :
    ((target.taking done).applySection c).target = target.taking (done ++ [c]) ∧
      (((target.taking done).applySection c).isChanged = true ↔
        ∃ s ∈ target.tracked, (picks [c] s).isSome = true) := by
  have hno : (target.taking done).hasSidecar = false := congrArg Option.isSome hsidecar
  have hstay (hnone : ∀ s ∈ target.tracked, picks [c] s = none) :
      target.taking done = target.taking (done ++ [c]) ∧
        (false = true ↔ ∃ s ∈ target.tracked, (picks [c] s).isSome = true) := by
    refine ⟨congrArg (fun sections => { target with sections }) (overlay_congr (fun s hs => ?_) 0),
      iff_of_false Bool.false_ne_true fun ⟨s, hs, hsome⟩ => ?_⟩
    · rw [picks_append, hnone s hs, Option.or_none]
    · rw [hnone s hs] at hsome
      cases hsome
  rw [applySection, hno, if_neg Bool.false_ne_true]
  cases hc : c.isModified with
  | true =>
      rw [if_pos rfl]
      exact hstay fun s _ => picks_singleton_of_modified hc s
  | false =>
      rw [if_neg Bool.false_ne_true]
      rcases replace_overlay hc hsame hnodup 0 with ⟨⟨s, hs, hpick⟩, hdone⟩ | ⟨hnone, hnot⟩
      · rw [taking, hdone]
        exact ⟨rfl, iff_of_true rfl ⟨s, hs, by rw [hpick]; rfl⟩⟩
      · split
        · exact hstay hnone
        · exact hstay hnone
        · next hdone => exact absurd hdone (hnot _)

/-! ## All candidates -/

/-- `target.Took candidates merged isChanged` says that a target which took some candidates one after another
is the one-pass result for them, and that it changed exactly if some section picked one. -/
structure Took (target : Document) (candidates : List Tracked) (merged : Document)
    (isChanged : Bool) : Prop where
  target_eq : merged = target.taking candidates
  changed_iff : isChanged = true ↔ ∃ s ∈ target.tracked, (picks candidates s).isSome = true

/-- Before anything is taken, nothing changed. -/
theorem took_nil (target : Document) : target.Took [] target false :=
  ⟨target.taking_nil.symm, iff_of_false Bool.false_ne_true fun ⟨s, _, hsome⟩ => by simp [picks] at hsome⟩

/-- One more candidate is taken. -/
theorem Took.apply_section {done : List Tracked} {merged : Document} {isChanged : Bool}
    (h : target.Took done merged isChanged) (hsidecar : target.sidecar = none)
    (hnodup : target.names.Nodup) {c : Tracked} (hsame : ∀ c' ∈ done, c'.name = c.name → c' = c) :
    target.Took (done ++ [c]) (merged.applySection c).target
      (isChanged || (merged.applySection c).isChanged) := by
  obtain ⟨rfl, hchanged⟩ := h
  obtain ⟨htaken, hone⟩ := apply_section_taking hsidecar hnodup hsame
  refine ⟨htaken, ?_⟩
  rw [Bool.or_eq_true, hchanged, hone, ← exists_or]
  refine exists_congr fun s => ?_
  rw [← and_or_left, picks_append, Option.isSome_or, Bool.or_eq_true]

/-- `target.TakesEach Offers merged isChanged` says that each section of a target took the candidate that it
was offered and that nothing else became of the target. It changed exactly if some section was offered
one. -/
structure TakesEach (target : Document) (Offers : Tracked → Tracked → Prop) (merged : Document)
    (isChanged : Bool) : Prop where
  frame : merged = { target with sections := merged.sections }
  sections : List.Forall₂ (Section.Merged Offers) target.sections merged.sections
  changed_iff : isChanged = true ↔ ∃ s ∈ target.tracked, ∃ c, Offers s c

/-- When all candidates of one name are one candidate, each section takes that of its name, if neither was
edited. -/
theorem Took.takes_each {candidates : List Tracked} {merged : Document} {isChanged : Bool}
    (h : target.Took candidates merged isChanged) (hsame : Unambiguous candidates)
    {Offers : Tracked → Tracked → Prop}
    (hoffers : ∀ s ∈ target.tracked, ∀ c, Offers s c ↔
      c ∈ candidates ∧ c.name = s.name ∧ s.isModified = false ∧ c.isModified = false) :
    target.TakesEach Offers merged isChanged := by
  obtain ⟨rfl, hchanged⟩ := h
  have hpicks : ∀ s ∈ target.tracked, ∀ c, Offers s c ↔ picks candidates s = some c :=
    fun s hs c => (hoffers s hs c).trans (picks_eq_some_iff hsame).symm
  refine ⟨rfl, merged_of_overlay hpicks 0, hchanged.trans (exists_congr fun s => ?_)⟩
  refine and_congr_right fun hs => Option.isSome_iff_exists.trans (exists_congr fun c => ?_)
  exact (hpicks s hs c).symm

/-- What is taken depends only on what the candidates are, not on their order. -/
theorem taking_congr {candidates candidates' : List Tracked} (hsame : Unambiguous candidates)
    (h : ∀ c, c ∈ candidates' ↔ c ∈ candidates) : target.taking candidates' = target.taking candidates := by
  have hsame' : Unambiguous candidates' := fun c hc c' hc' =>
    hsame c ((h c).1 hc) c' ((h c').1 hc')
  refine congrArg (fun sections => { target with sections }) (overlay_congr (fun s _ => ?_) 0)
  refine Option.ext fun c => ?_
  rw [picks_eq_some_iff hsame', picks_eq_some_iff hsame, h]

end Document

end TrackedSections
