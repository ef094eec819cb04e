import Mathlib.Data.List.Nodup
import TrackedSections.Proofs.Merge.Overlay
import TrackedSections.Proofs.Merge.Sound

/-!
# Pulling each section by itself

While a target pulls its sections, it changes, the sections after a replaced one move, and the cache
fills. None of this matters to what a section pulls: `Pulls` says it of a section with the path of its
target, the cache and the disk as they were at the start. Read `pulls_each` first.
-/

namespace TrackedSections

open Effect

/-! ## Sources -/

namespace Pulling

variable {view : View}

/-- Looking for a source that does not end the run finds the document of the source, if it has one. The
target stays as it is, and the cache answers as before. -/
theorem source_of_ok {written : Text} {excuse : Failure → Notice} {pull pull' : Pull}
    {found : Option Document} (h : outcome (source? written excuse) view pull = (.ok found, pull')) :
    found = (sourceOf pull.cache view pull.target.path written).toOption ∧
      pull'.target = pull.target ∧ pull'.isChanged = pull.isChanged ∧
      pull'.cache.documentAt view = pull.cache.documentAt view := by
  rcases source_cases written excuse view pull with
    ⟨place, path, d, notices, hplace, hkey, hdocument, hsource⟩ | ⟨failure, notices, hnone, hsource⟩
  · rw [hsource] at h
    obtain ⟨rfl, rfl⟩ : some d = found ∧ _ := ⟨Except.ok.inj (Prod.mk.inj h).1, (Prod.mk.inj h).2⟩
    have hof : sourceOf pull.cache view pull.target.path written = .ok d := by
      rw [sourceOf, hplace]
      show pull.cache.documentOf view place.toText = .ok d
      rw [SourceCache.documentOf, hkey]
      exact hdocument
    rw [hof]
    exact ⟨rfl, rfl, rfl, SourceCache.document_at_keeping hdocument⟩
  · rw [hsource] at h
    rw [hnone]
    cases hexpected : failure.isExpected with
    | false =>
        rw [hexpected] at h
        cases h
    | true =>
        rw [hexpected] at h
        obtain ⟨rfl, rfl⟩ : none = found ∧ _ := ⟨Except.ok.inj (Prod.mk.inj h).1, (Prod.mk.inj h).2⟩
        exact ⟨rfl, rfl, rfl, rfl⟩

/-! ## Sections -/

/-- `Draws cache view path wanted s c` says that a section `s` of a target at some path is wanted and that `c` is
the section of its name in the source that it names, with another content or another accepted digest. -/
inductive Draws (cache : SourceCache) (view : View) (path : Option Path)
    (wanted : List (Option Text)) (s c : Tracked) : Prop where
  | intro {written : Text} {d : Document} (hnames : s.source = some written)
      (hwanted : wanted = [] ∨ some s.name ∈ wanted)
      (hsource : sourceOf cache view path written = .ok d) (hfound : d.get? s.name = some c)
      (hdiffers : c.content ≠ s.content ∨ c.accepted ≠ s.accepted)

/-- A section pulls what it draws from its source when neither was edited. -/
def Pulls (cache : SourceCache) (view : View) (path : Option Path) (wanted : List (Option Text))
    (s c : Tracked) : Prop :=
  Draws cache view path wanted s c ∧ c.isModified = false ∧ s.isModified = false

variable {cache : SourceCache} {path : Option Path} {wanted : List (Option Text)} {s c c' : Tracked}

/-- A section draws a section of its name. -/
theorem Draws.name_eq (h : Draws cache view path wanted s c) : c.name = s.name := by
  obtain ⟨-, -, -, hfound, -⟩ := h
  simpa using List.find?_some hfound

/-- A section draws no more than one section. -/
theorem Draws.unique (h : Draws cache view path wanted s c) (h' : Draws cache view path wanted s c') :
    c = c' := by
  obtain ⟨hnames, -, hsource, hfound, -⟩ := h
  obtain ⟨hnames', -, hsource', hfound', -⟩ := h'
  obtain rfl := Option.some.inj (hnames.symm.trans hnames')
  obtain rfl := Except.ok.inj (hsource.symm.trans hsource')
  exact Option.some.inj (hfound.symm.trans hfound')

theorem is_wanted_iff : isWanted wanted s = true ↔ wanted = [] ∨ some s.name ∈ wanted := by
  rw [isWanted, Bool.or_eq_true, List.isEmpty_iff, List.contains_iff_mem]

/-- The state of a pull that took some candidates: the target took them, and the cache answers as it did at
the start. -/
structure Pulled (target : Document) (cache : SourceCache) (view : View) (candidates : List Tracked)
    (pull : Pull) : Prop where
  took : target.Took candidates pull.target pull.isChanged
  documents_eq : pull.cache.documentAt view = cache.documentAt view

variable {target : Document} {done : List Tracked} {pull pull' : Pull}

/-- Of a target that took some candidates, the path is that of the target. -/
theorem Pulled.path_eq (h : Pulled target cache view done pull) : pull.target.path = target.path := by
  rw [h.took.target_eq]
  rfl

/-- Sources are the same after a pull as before. -/
theorem Pulled.source_of_eq (h : Pulled target cache view done pull) (written : Text) :
    sourceOf pull.cache view pull.target.path written = sourceOf cache view target.path written := by
  rw [sourceOf, sourceOf, h.path_eq]
  unfold SourceCache.documentOf
  rw [h.documents_eq]

/-- A section takes that of its name in a document, if it differs from it. -/
theorem pulled_of_document (hsidecar : target.sidecar = none) (hnodup : target.names.Nodup)
    (h : Pulled target cache view done pull) (hfresh : ∀ c ∈ done, c.name ≠ s.name) (d : Document) :
    ∃ drawn : Option Tracked,
      (∀ c, drawn = some c ↔
        d.get? s.name = some c ∧ (c.content ≠ s.content ∨ c.accepted ≠ s.accepted)) ∧
      Pulled target cache view (done ++ drawn.toList) (outcome (pullFrom s d) view pull).2 := by
  rw [pullFrom]
  cases hfound : d.get? s.name with
  | none =>
      refine ⟨none, fun c => iff_of_false nofun fun ⟨hc, _⟩ => Option.some_ne_none c hc.symm, ?_⟩
      rw [Option.toList_none, List.append_nil]
      exact ⟨h.took, h.documents_eq⟩
  | some c =>
      have hname : c.name = s.name := by simpa using List.find?_some hfound
      dsimp only
      split
      · next hdiffers =>
          refine ⟨some c, fun c' => ⟨fun hc => ⟨hc, ?_⟩, fun hc => hc.1⟩, ?_⟩
          · exact Option.some.inj hc ▸ hdiffers
          · exact ⟨h.took.apply_section hsidecar hnodup fun c' hc' hsame =>
              absurd (hsame.trans hname) (hfresh c' hc'), h.documents_eq⟩
      · next hsame =>
          refine ⟨none, fun c' => iff_of_false nofun fun ⟨hc, hdiffers⟩ => ?_, ?_⟩
          · exact hsame (Option.some.inj hc ▸ hdiffers)
          · rw [Option.toList_none, List.append_nil]
            exact h

/-- A section that pulls without ending the run takes what it draws, and nothing if it draws nothing. -/
theorem pulled_of_section (hsidecar : target.sidecar = none) (hnodup : target.names.Nodup)
    (h : Pulled target cache view done pull) (hfresh : ∀ c ∈ done, c.name ≠ s.name)
    (hrun : outcome (pullSection wanted s) view pull = (.ok (), pull')) :
    ∃ drawn : Option Tracked, (∀ c, drawn = some c ↔ Draws cache view target.path wanted s c) ∧
      Pulled target cache view (done ++ drawn.toList) pull' := by
  have hnothing (hnone : ∀ c, ¬ Draws cache view target.path wanted s c) {pull' : Pull}
      (h : Pulled target cache view done pull') :
      ∃ drawn : Option Tracked, (∀ c, drawn = some c ↔ Draws cache view target.path wanted s c) ∧
        Pulled target cache view (done ++ drawn.toList) pull' :=
    ⟨none, fun c => iff_of_false nofun (hnone c), by
      rwa [Option.toList_none, List.append_nil]⟩
  unfold pullSection at hrun
  cases hnames : s.source with
  | none =>
      rw [hnames] at hrun
      obtain rfl := (Prod.mk.inj hrun).2
      exact hnothing (fun c hc => by obtain ⟨hsome, -⟩ := hc; cases hnames.symm.trans hsome) h
  | some written =>
      rw [hnames] at hrun
      dsimp only at hrun
      split at hrun
      · next hwanted =>
          obtain ⟨found, between, hsource, hrun⟩ := ok_of_bind hrun
          obtain ⟨hfound, htarget, hchanged, hcache⟩ := source_of_ok hsource
          rw [h.source_of_eq] at hfound
          have hbetween : Pulled target cache view done between :=
            ⟨htarget ▸ hchanged ▸ h.took, hcache.trans h.documents_eq⟩
          cases hdocument : sourceOf cache view target.path written with
          | error failure =>
              rw [hdocument] at hfound
              obtain rfl : found = none := hfound
              obtain rfl := (Prod.mk.inj hrun).2
              refine hnothing (fun c hc => ?_) hbetween
              obtain ⟨hsome, -, hread, -⟩ := hc
              obtain rfl := Option.some.inj (hnames.symm.trans hsome)
              cases hdocument.symm.trans hread
          | ok d =>
              rw [hdocument] at hfound
              obtain rfl : found = some d := hfound
              obtain ⟨drawn, hdrawn, hpulled⟩ :=
                pulled_of_document hsidecar hnodup hbetween hfresh d
              have hrun : outcome (pullFrom s d) view between = (.ok (), pull') := hrun
              rw [hrun] at hpulled
              refine ⟨drawn, fun c => (hdrawn c).trans ⟨fun ⟨hget, hdiffers⟩ => ?_, fun hc => ?_⟩, hpulled⟩
              · exact ⟨hnames, is_wanted_iff.1 hwanted, hdocument, hget, hdiffers⟩
              · obtain ⟨hsome, -, hread, hget, hdiffers⟩ := hc
                obtain rfl := Option.some.inj (hnames.symm.trans hsome)
                obtain rfl := Except.ok.inj (hdocument.symm.trans hread)
                exact ⟨hget, hdiffers⟩
      · next hunwanted =>
          obtain rfl := (Prod.mk.inj hrun).2
          refine hnothing (fun c hc => ?_) h
          obtain ⟨-, hwanted, -⟩ := hc
          exact hunwanted (is_wanted_iff.2 hwanted)

/-- Sections that pull one after another take what they draw. -/
theorem pulled_of_sections (hsidecar : target.sidecar = none) (hnodup : target.names.Nodup)
    {sections : List Tracked} (hnames : (sections.map (·.name)).Nodup)
    (h : Pulled target cache view done pull)
    (hfresh : ∀ c ∈ done, c.name ∉ sections.map (·.name))
    (hrun : outcome (sections.forM (pullSection wanted)) view pull = (.ok (), pull')) :
    ∃ candidates : List Tracked,
      (∀ c, c ∈ candidates ↔ ∃ s ∈ sections, Draws cache view target.path wanted s c) ∧
      Pulled target cache view (done ++ candidates) pull' := by
  induction sections generalizing done pull with
  | nil =>
      obtain rfl := (Prod.mk.inj hrun).2
      exact ⟨[], fun c => by simp, by rwa [List.append_nil]⟩
  | cons s rest ih =>
      obtain ⟨hname, hnames⟩ := List.nodup_cons.1 hnames
      rw [List.map_cons] at hfresh
      obtain ⟨_, between, hfirst, hrest⟩ := ok_of_bind hrun
      obtain ⟨drawn, hdrawn, hbetween⟩ := pulled_of_section hsidecar hnodup h
        (fun c hc hsame => hfresh c hc (hsame ▸ List.mem_cons_self)) hfirst
      have hfresh' : ∀ c ∈ done ++ drawn.toList, c.name ∉ rest.map (·.name) := by
        intro c hc
        rcases List.mem_append.1 hc with hc | hc
        · exact fun hmem => hfresh c hc (List.mem_cons_of_mem _ hmem)
        · exact ((hdrawn c).1 (Option.mem_toList.1 hc)).name_eq ▸ hname
      obtain ⟨candidates, hcandidates, hpulled⟩ := ih hnames hbetween hfresh' hrest
      refine ⟨drawn.toList ++ candidates, fun c => ?_, by rwa [← List.append_assoc]⟩
      rw [List.mem_append, Option.mem_toList, hdrawn, hcandidates, List.exists_mem_cons_iff]

end Pulling

namespace Document

/-- A target with comments that was read pulls for each of its sections by itself: a section takes the one
of its name from the source that it names if it is wanted, the source is in the cache or can be read, the
two differ, and neither was edited. Whether it does, and what it takes, is said by `Pulls` with nothing
but the path of the target, the cache and the disk at the start. All other sections keep everything but
their place, nothing else in the target changes, and the answer is whether any section took one. -/
theorem pulls_each {written : Text} {given : Option Text} {config : Config} {readView : View}
    {target : Document} (hload : ((load written given config).report readView).1 = .ok target)
    (hsidecar : target.sidecar = none) (cache : SourceCache) (wanted : List (Option Text)) (view : View)
    (hreturns : (target.update cache wanted none view).1 = .ok ()) :
    let run := target.update cache wanted none view
    target.TakesEach (Pulling.Pulls cache view target.path wanted) run.2.target run.2.isChanged := by
  have hnodup : target.names.Nodup := (sound_of_load (Prod.ext hload rfl)).orderly.nodup
  intro run
  have hrun : outcome (target.tracked.forM (Pulling.pullSection wanted)) view
      ⟨target, cache, false, []⟩ = (.ok (), run.2) := by
    rw [← Pulling.update_eq hsidecar]
    exact Prod.ext hreturns rfl
  obtain ⟨candidates, hcandidates, hpulled⟩ := Pulling.pulled_of_sections hsidecar hnodup hnodup
    ⟨target.took_nil, rfl⟩ (fun _ hc => absurd hc List.not_mem_nil) hrun
  -- Names tell sections apart, so a candidate of the name of a section was drawn by it.
  have hsection : ∀ s ∈ target.tracked, ∀ c ∈ candidates, c.name = s.name →
      Pulling.Draws cache view target.path wanted s c := by
    intro s hs c hc hname
    obtain ⟨s', hs', hdraws⟩ := (hcandidates c).1 hc
    obtain rfl := List.inj_on_of_nodup_map hnodup hs' hs (hdraws.name_eq.symm.trans hname)
    exact hdraws
  have hsame : Unambiguous candidates := by
    intro c hc c' hc' hname
    obtain ⟨s, hs, hdraws⟩ := (hcandidates c).1 hc
    exact hdraws.unique (hsection s hs c' hc' (hname.symm.trans hdraws.name_eq))
  refine hpulled.took.takes_each hsame fun s hs c => ⟨fun ⟨hdraws, hc, hs'⟩ => ?_, ?_⟩
  · exact ⟨(hcandidates c).2 ⟨s, hs, hdraws⟩, hdraws.name_eq, hs', hc⟩
  · rintro ⟨hmem, hname, hs', hc⟩
    exact ⟨hsection s hs c hmem hname, hc, hs'⟩

/-- A section is pulled that is wanted twice, from a source that was not read before. -/
theorem sourced_target_pulls_each :
    let view := filesOnly [(['t'], sourcedTarget), (['f'], acceptedSource)]
    let target := ofFile ['#'] view ⟨.none, [['t']]⟩ sourcedTarget
    let cache := SourceCache.empty (some ['#']) .empty
    let wanted := [some ['s'], none, some ['s']]
    let run := target.update cache wanted none view
    ((load ['t'] (some ['#']) .empty).report view).1 = .ok target ∧ target.sidecar = none ∧
    run.1 = .ok () ∧
    target.TakesEach (Pulling.Pulls cache view target.path wanted) run.2.target run.2.isChanged ∧
    run.2.isChanged = true := by
  intro view target cache wanted run
  have hfile : CommentFile view ['t'] ⟨.none, [['t']]⟩ sourcedTarget.encode :=
    ⟨rfl, rfl, List.not_mem_nil, rfl, ⟨.none, [['t'] ++ Sidecar.extension]⟩, rfl, .inr rfl⟩
  obtain ⟨notices, hload⟩ := outcome_load hfile (Text.decode_encode _) ['#'] .empty []
  have hread : ((load ['t'] (some ['#']) .empty).report view).1 = .ok target := congrArg Prod.fst hload
  have hreturns : run.1 = .ok () := ok_of_to_option (by decide +kernel)
  have hchanged : run.2.isChanged = true := by decide +kernel
  have hsidecar : target.sidecar = none := Option.isNone_iff_eq_none.1 (by decide +kernel)
  -- The rest holds of any target, so that nothing is evaluated below.
  clear_value target
  exact ⟨hread, hsidecar, hreturns, pulls_each hread hsidecar cache wanted view hreturns, hchanged⟩

end Document

end TrackedSections
