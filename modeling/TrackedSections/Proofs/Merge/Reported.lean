import TrackedSections.Proofs.Merge.ByName
import TrackedSections.Proofs.Merge.PullEach
import TrackedSections.Proofs.Merge.Pulling
import TrackedSections.Proofs.Merge.SameText

/-!
# What an update reports

An update reports whether the target changed. `update_reports_changes` compares this with the text of the
target before and after: nothing changes without a report, and what sections pull from the sources that
they name is always another text. From a given source, a target may also take again what it has, and
that is reported as well; `Retakes` says exactly when.
-/

namespace TrackedSections

open Effect

/-! ## Sources -/

/-- In a cache of sound documents, or on the disk, the document at a path is sound. -/
theorem SourceCache.sound_of_document_at {cache : SourceCache} {view : View}
    (hcache : ∀ entry ∈ cache.documents, entry.2.Sound) {path : Path} {d : Document}
    (h : cache.documentAt view path = .ok d) : d.Sound := by
  unfold documentAt at h
  split at h
  · next d' hlookup =>
      obtain rfl := Except.ok.inj h
      obtain ⟨before, after, hdocuments, -⟩ := List.lookup_eq_some_iff.1 hlookup
      exact hcache (path, d') (hdocuments ▸ List.mem_append_right _ List.mem_cons_self)
  · exact Document.sound_of_load (Prod.ext h rfl)

namespace Pulling

variable {view : View} {cache : SourceCache}

/-- With a cache of sound documents, every source of a target is sound. -/
theorem sound_of_source_of (hcache : ∀ entry ∈ cache.documents, entry.2.Sound) {path : Option Path}
    {written : Text} {d : Document} (h : sourceOf cache view path written = .ok d) : d.Sound := by
  rw [sourceOf] at h
  cases hplace : placeOf view path written with
  | error failure => cases hplace ▸ h
  | ok place =>
      rw [hplace] at h
      change (SourceCache.keyOf view place.toText).bind (cache.documentAt view) = .ok d at h
      cases hkey : SourceCache.keyOf view place.toText with
      | error failure => cases hkey ▸ h
      | ok key => exact SourceCache.sound_of_document_at hcache (hkey ▸ h)

/-- A target with a sidecar pulls nothing, or applies a source that is sound. -/
theorem update_sidecar_cases {target : Document} {s : Sidecar} (hsidecar : target.sidecar = some s)
    (hcache : ∀ entry ∈ cache.documents, entry.2.Sound) (wanted : List (Option Text)) (view : View)
    (hreturns : (target.update cache wanted none view).1 = .ok ()) :
    let run := target.update cache wanted none view
    (run.2.target = target ∧ run.2.isChanged = false) ∨ ∃ d, d.Sound ∧
      run.2.target = (target.apply d).target ∧ run.2.isChanged = (target.apply d).isChanged := by
  dsimp only
  have hpull : outcome (pullSidecar s) view ⟨target, cache, false, []⟩ =
      (.ok (), (target.update cache wanted none view).2) :=
    update_sidecar_eq hsidecar cache wanted view ▸ Prod.ext hreturns rfl
  generalize (target.update cache wanted none view).2 = pull at hpull ⊢
  rw [pullSidecar, outcome_bind, outcome_get] at hpull
  dsimp only at hpull
  split at hpull
  · obtain rfl := (Prod.mk.inj hpull).2
    exact .inl ⟨rfl, rfl⟩
  · split at hpull
    · obtain rfl := (Prod.mk.inj hpull).2
      exact .inl ⟨rfl, rfl⟩
    · obtain rfl := (Prod.mk.inj hpull).2
      exact .inl ⟨rfl, rfl⟩
    · obtain ⟨found, between, hsource, hpull⟩ := ok_of_bind hpull
      obtain ⟨hfound, htarget, hchanged, -⟩ := source_of_ok hsource
      dsimp only at htarget hchanged
      cases found with
      | none =>
          obtain rfl := (Prod.mk.inj hpull).2
          exact .inl ⟨htarget, hchanged⟩
      | some d =>
          obtain rfl := (Prod.mk.inj hpull).2
          refine .inr ⟨d, sound_of_source_of hcache (ok_of_to_option hfound.symm), rfl, ?_⟩
          show (between.isChanged || (target.apply d).isChanged) = _
          rw [hchanged, Bool.false_or]

/-- A target with comments that pulls takes sound sections, each of which some section of its name draws. -/
theorem took_of_pull {target : Document} (hsidecar : target.sidecar = none) (hnodup : target.names.Nodup)
    (hcache : ∀ entry ∈ cache.documents, entry.2.Sound) (wanted : List (Option Text))
    (hreturns : (target.update cache wanted none view).1 = .ok ()) :
    let run := target.update cache wanted none view
    ∃ candidates : List Tracked, target.Took candidates run.2.target run.2.isChanged ∧
      (∀ c ∈ candidates, c.Sound) ∧
      ∀ c ∈ candidates, ∃ s ∈ target.tracked, Draws cache view target.path wanted s c := by
  intro run
  have hrun : outcome (target.tracked.forM (pullSection wanted)) view ⟨target, cache, false, []⟩ =
      (.ok (), run.2) := by
    rw [← update_eq hsidecar]
    exact Prod.ext hreturns rfl
  obtain ⟨candidates, hcandidates, hpulled⟩ := pulled_of_sections hsidecar hnodup hnodup
    ⟨target.took_nil, rfl⟩ (fun _ hc => absurd hc List.not_mem_nil) hrun
  refine ⟨candidates, hpulled.took, fun c hc => ?_, fun c hc => (hcandidates c).1 hc⟩
  obtain ⟨s, -, -, -, hsource, hfound, -⟩ := (hcandidates c).1 hc
  exact (sound_of_source_of hcache hsource).of_mem_tracked (Document.mem_tracked_of_get hfound)

end Pulling

namespace Document

variable {target source merged : Document} {candidates : List Tracked} {wanted : List (Option Text)}
  {cache : SourceCache}

/-- A target takes everything from the source of an update if it has a sidecar or no names are wanted. -/
theorem update_from_whole_source (hall : wanted = [] ∨ target.hasSidecar = true) (source : Document)
    (cache : SourceCache) (view : View) :
    let run := target.update cache wanted (some source) view
    run.1 = .ok () ∧ run.2.target = (target.apply source).target ∧
      run.2.isChanged = (target.apply source).isChanged := by
  have hwanted : ¬ (!wanted.isEmpty && !target.hasSidecar) = true := by
    rcases hall with rfl | hsidecar
    · simp
    · simp [hsidecar]
  dsimp only
  rw [Pulling.update_from_eq, if_neg hwanted]
  exact ⟨rfl, rfl, Bool.false_or _⟩

/-- Nothing is taken from the source of an update when something stands against it. -/
theorem update_of_obstacle (hobstacle : target.obstacle? source ≠ none) (cache : SourceCache)
    (wanted : List (Option Text)) (view : View) :
    let run := target.update cache wanted (some source) view
    run.2.target = target ∧ run.2.isChanged = false := by
  obtain ⟨notice, hnotice⟩ := Option.ne_none_iff_exists'.1 hobstacle
  have hrefused : target.applyNamed source wanted = .none target [notice] ∧
      target.apply source = .none target [notice] := by
    rw [applyNamed, apply, hnotice]
    exact ⟨rfl, rfl⟩
  dsimp only
  rw [Pulling.update_from_eq, hrefused.1, hrefused.2, ite_self]
  exact ⟨rfl, rfl⟩

/-- A target that did not change is as it was. -/
theorem Took.eq_of_unchanged {isChanged : Bool} (h : target.Took candidates merged isChanged)
    (hunchanged : isChanged = false) : merged = target := by
  have hnone : ∀ s ∈ target.tracked, picks candidates s = none := by
    intro s hs
    by_contra hsome
    have hchanged := h.changed_iff.2 ⟨s, hs, Option.isSome_iff_ne_none.2 hsome⟩
    exact Bool.false_ne_true (hunchanged.symm.trans hchanged)
  rw [h.target_eq, taking, overlay_congr hnone, overlay_none]

/-! ## What is reported -/

/-- `source.Hands wanted s c` says that a source offers the section `c` to a section `s` that is wanted. -/
def Hands (source : Document) (wanted : List (Option Text)) (s c : Tracked) : Prop :=
  (wanted = [] ∨ some s.name ∈ wanted) ∧ source.Offers s c

/-- `target.Retakes source wanted` says that a target takes from a source what it has already: all sections at
once that are written as its own are, or at least one section, and each that it takes is what stands
there. -/
inductive Retakes (target source : Document) (wanted : List (Option Text)) : Prop where
  | all (hobstacle : target.obstacle? source = none) (hwanted : wanted = [])
      (hall : target.takesAll source = true)
      (hsame : ({ target with sections := source.sections } : Document).write = target.write)
  | each (hobstacle : target.obstacle? source = none)
      (hwanted : wanted = [] → target.takesAll source = false)
      (hhanded : ∃ s ∈ target.tracked, ∃ c, source.Hands wanted s c)
      (hsame : ∀ s ∈ target.tracked, ∀ c, source.Hands wanted s c → s.Has c)

/-- A target takes what the source of an update hands it, when it does not take all sections at once. -/
theorem took_of_source (hsidecar : target.sidecar = none) (hobstacle : target.obstacle? source = none)
    (hwanted : wanted = [] → target.takesAll source = false) (hnodup : target.names.Nodup)
    (hsource : source.Sound) (cache : SourceCache) (view : View) :
    let run := target.update cache wanted (some source) view
    ∃ candidates, target.Took candidates run.2.target run.2.isChanged ∧ (∀ c ∈ candidates, c.Sound) ∧
      ∀ s c, picks candidates s = some c ↔ source.Hands wanted s c := by
  have hnames : source.names.Nodup := hsource.orderly.nodup
  by_cases hempty : wanted = []
  · obtain ⟨-, htarget, hchanged⟩ := update_from_whole_source (.inl hempty) source cache view
    have htook := took_of_apply hsidecar hobstacle (hwanted hempty) hnodup hnames
    refine ⟨source.tracked, htarget ▸ hchanged ▸ htook, fun c hc => hsource.of_mem_tracked hc,
      fun s c => ?_⟩
    rw [picks_eq_some_iff (unambiguous_of_nodup hnames), Hands, Offers, get_eq_some_iff hnames, and_assoc]
    exact (and_iff_right (.inl hempty)).symm
  · obtain ⟨-, htook⟩ := took_of_update hsidecar hobstacle hnodup hnames cache hempty view
    have hnamed : ∀ c ∈ source.named wanted, c ∈ source.tracked := fun c hc =>
      ((mem_named_iff hnames).1 hc).1
    refine ⟨source.named wanted, htook, fun c hc => hsource.of_mem_tracked (hnamed c hc), fun s c => ?_⟩
    rw [picks_eq_some_iff (unambiguous_named hnames wanted), mem_named_iff hnames, Hands, Offers,
      get_eq_some_iff hnames, or_iff_right hempty]
    constructor
    · rintro ⟨⟨hmem, hname⟩, hsame, hmodified⟩
      exact ⟨hsame ▸ hname, ⟨hmem, hsame⟩, hmodified⟩
    · rintro ⟨hname, ⟨hmem, hsame⟩, hmodified⟩
      exact ⟨⟨hmem, hsame.symm ▸ hname⟩, hsame, hmodified⟩

/-- A run reports at least the changes of the text when it leaves a target as it was without a report. -/
theorem changed_of_write_ne {isChanged : Bool} (hunchanged : isChanged = false → merged = target)
    (hwrite : merged.write ≠ target.write) : isChanged = true := by
  by_contra hchanged
  rw [hunchanged (Bool.eq_false_iff.2 hchanged)] at hwrite
  exact hwrite rfl

/-- A legible target that pulls from the sources of its sections reports a change exactly if its text is
another one. -/
theorem pull_reports (hlegible : target.Legible) (hcache : ∀ entry ∈ cache.documents, entry.2.Sound)
    (wanted : List (Option Text)) (view : View)
    (hreturns : (target.update cache wanted none view).1 = .ok ()) :
    let run := target.update cache wanted none view
    (run.2.isChanged = false → run.2.target = target) ∧
      (run.2.isChanged = true ↔ run.2.target.write ≠ target.write) := by
  obtain ⟨candidates, htook, hsound, hdrawn⟩ :=
    Pulling.took_of_pull hlegible.sidecar_eq_none hlegible.nodup hcache wanted hreturns
  refine ⟨htook.eq_of_unchanged, fun hchanged hwrite => ?_,
    changed_of_write_ne htook.eq_of_unchanged⟩
  obtain ⟨s, hs, hsome⟩ := htook.changed_iff.1 hchanged
  obtain ⟨c, hpick⟩ := Option.isSome_iff_exists.1 hsome
  obtain ⟨hmem, hname, -⟩ := picks_eq_some hpick
  obtain ⟨s', hs', hdraws⟩ := hdrawn c hmem
  obtain rfl := List.inj_on_of_nodup_map hlegible.nodup hs' hs (hdraws.name_eq.symm.trans hname)
  have hhas := (htook.write_eq_iff hlegible hsound).1 hwrite s' hs c hpick
  obtain ⟨-, -, -, -, hdiffers⟩ := hdraws
  exact hdiffers.elim (absurd hhas.content_eq) (absurd hhas.accepted_eq)

/-- A legible target that takes from a given source reports a change exactly if its text is another one or it
took again what it had. -/
theorem take_reports (hlegible : target.Legible) (hsource : source.Sound) (cache : SourceCache)
    (wanted : List (Option Text)) (view : View) :
    let run := target.update cache wanted (some source) view
    (run.2.isChanged = false → run.2.target = target) ∧
      (run.2.isChanged = true ↔ run.2.target.write ≠ target.write ∨ target.Retakes source wanted) ∧
      (target.Retakes source wanted → run.2.target.write = target.write) := by
  have hsidecar := hlegible.sidecar_eq_none
  intro run
  by_cases hobstacle : target.obstacle? source = none
  · by_cases hall : wanted = [] ∧ target.takesAll source = true
    · obtain ⟨hwanted, htakes⟩ := hall
      obtain ⟨-, htarget, hchanged⟩ := update_from_whole_source (.inl hwanted) source cache view
      obtain ⟨hdone, hreport⟩ := apply_of_takes_all hsidecar hobstacle htakes
      have hwrite : run.2.target.write = ({ target with sections := source.sections } : Document).write := by
        rw [htarget, hdone]
        rfl
      have hretakes : target.Retakes source wanted ↔ run.2.target.write = target.write := by
        rw [hwrite]
        refine ⟨fun h => ?_, .all hobstacle hwanted htakes⟩
        cases h with
        | all _ _ _ hsame => exact hsame
        | each _ hnot => exact absurd (htakes.symm.trans (hnot hwanted)) nofun
      have htrue : run.2.isChanged = true := hchanged.trans hreport
      refine ⟨fun hfalse => absurd (htrue.symm.trans hfalse) nofun, iff_of_true htrue ?_, hretakes.1⟩
      rw [hretakes]
      exact (em _).symm
    · have hwanted : wanted = [] → target.takesAll source = false := fun hempty =>
        Bool.eq_false_iff.2 fun htakes => hall ⟨hempty, htakes⟩
      obtain ⟨candidates, htook, hsound, hpicks⟩ :=
        took_of_source hsidecar hobstacle hwanted hlegible.nodup hsource cache view
      have hhanded : run.2.isChanged = true ↔ ∃ s ∈ target.tracked, ∃ c, source.Hands wanted s c := by
        refine htook.changed_iff.trans (exists_congr fun s => and_congr_right fun _ => ?_)
        exact Option.isSome_iff_exists.trans (exists_congr (hpicks s))
      have hsame := htook.write_eq_iff hlegible hsound
      simp only [hpicks] at hsame
      have hretakes : target.Retakes source wanted → run.2.target.write = target.write ∧
          run.2.isChanged = true := by
        intro h
        cases h with
        | all _ hempty htakes => exact absurd ⟨hempty, htakes⟩ hall
        | each _ _ hsome hhas => exact ⟨hsame.2 hhas, hhanded.2 hsome⟩
      refine ⟨htook.eq_of_unchanged, ⟨fun hchanged => ?_, ?_⟩, fun h => (hretakes h).1⟩
      · by_cases hwrite : run.2.target.write = target.write
        · exact .inr (.each hobstacle hwanted (hhanded.1 hchanged) (hsame.1 hwrite))
        · exact .inl hwrite
      · rintro (hwrite | h)
        · exact changed_of_write_ne htook.eq_of_unchanged hwrite
        · exact (hretakes h).2
  · obtain ⟨htarget, hfalse⟩ := update_of_obstacle hobstacle cache wanted view
    have hnot : ¬ target.Retakes source wanted := fun h => by cases h <;> contradiction
    refine ⟨fun _ => htarget, ⟨fun htrue => absurd (hfalse.symm.trans htrue) nofun, ?_⟩,
      fun h => absurd h hnot⟩
    rintro (hwrite | h)
    · exact absurd (congrArg write htarget) hwrite
    · exact absurd h hnot

/-- A sound target with a sidecar that applies a sound source reports a change exactly if its content is
another one. -/
theorem apply_sidecar_reports {s : Sidecar} (htarget : target.Sound) (hsidecar : target.sidecar = some s)
    (hsource : source.Sound) :
    ((target.apply source).isChanged = false → (target.apply source).target = target) ∧
      ((target.apply source).isChanged = true ↔
        (target.apply source).target.sidecar.map (·.content) ≠ target.sidecar.map (·.content)) := by
  rcases apply_sidecar_cases hsidecar source with ⟨hfalse, hsame⟩ |
    ⟨theirs, htheirs, hmine, hunmodified, hdiffers, htrue, hdone⟩
  · rw [hfalse, hsame]
    exact ⟨fun _ => rfl, iff_of_false Bool.false_ne_true (not_not.2 rfl)⟩
  · rw [htrue, hdone, hsidecar]
    refine ⟨nofun, iff_of_true rfl fun hcontent => hdiffers ?_⟩
    have haccepted {s : Sidecar} (hsound : s.Sound) (hs : s.isModified = false) :
        s.accepted = s.current :=
      not_not.1 fun hne => Bool.false_ne_true (hs.symm.trans (hsound.2 hne))
    rw [haccepted (htarget.sidecar_sound s hsidecar) hmine,
      haccepted (hsource.sidecar_sound theirs htheirs) hunmodified]
    exact (congrArg Digest.ofBytes (Option.some.inj hcontent)).symm

/-- An update of a sound target with a sidecar reports a change exactly if its content is another one. -/
theorem sidecar_reports {s : Sidecar} (htarget : target.Sound) (hsidecar : target.sidecar = some s)
    (hcache : ∀ entry ∈ cache.documents, entry.2.Sound) (wanted : List (Option Text))
    {given : Option Document} (hgiven : ∀ d, given = some d → d.Sound) (view : View)
    (hreturns : (target.update cache wanted given view).1 = .ok ()) :
    let run := target.update cache wanted given view
    (run.2.isChanged = false → run.2.target = target) ∧ (run.2.isChanged = true ↔
      run.2.target.sidecar.map (·.content) ≠ target.sidecar.map (·.content)) := by
  have hcases : ((target.update cache wanted given view).2.target = target ∧
      (target.update cache wanted given view).2.isChanged = false) ∨ ∃ d, d.Sound ∧
      (target.update cache wanted given view).2.target = (target.apply d).target ∧
      (target.update cache wanted given view).2.isChanged = (target.apply d).isChanged := by
    cases given with
    | none => exact Pulling.update_sidecar_cases hsidecar hcache wanted view hreturns
    | some d =>
        have hhas : target.hasSidecar = true := by rw [hasSidecar, hsidecar, Option.isSome_some]
        exact .inr ⟨d, hgiven d rfl, (update_from_whole_source (.inr hhas) d cache view).2⟩
  dsimp only
  rcases hcases with ⟨hsame, hfalse⟩ | ⟨d, hd, hdone, hreport⟩
  · rw [hsame, hfalse]
    exact ⟨fun _ => rfl, iff_of_false Bool.false_ne_true (not_not.2 rfl)⟩
  · rw [hdone, hreport]
    exact apply_sidecar_reports htarget hsidecar hd

/-- For every target that was read, every cache and every source that arise, an update that returns reports
any change, and leaves the target as it was without a report. When a target with comments pulls from the
sources of its sections, the report says whether its text is another one, and with a sidecar it says
whether the content of its file is. From a given source, a target with comments reports in addition when it
takes again what it has, so that its text stays the same. -/
theorem update_reports_changes {written : Text} {given : Option Text} {config : Config} {readView : View}
    {target : Document} (hload : ((load written given config).report readView).1 = .ok target)
    {cache : SourceCache} (hcache : ∀ entry ∈ cache.documents, Arises entry.2)
    (wanted : List (Option Text)) {source : Option Document} (hsource : ∀ d, source = some d → Arises d)
    (view : View) (hreturns : (target.update cache wanted source view).1 = .ok ()) :
    let run := target.update cache wanted source view
    (run.2.isChanged = false → run.2.target = target) ∧
    (target.sidecar = none → source = none →
      (run.2.isChanged = true ↔ run.2.target.write ≠ target.write)) ∧
    (target.sidecar = none → ∀ d, source = some d →
      (run.2.isChanged = true ↔ run.2.target.write ≠ target.write ∨ target.Retakes d wanted) ∧
      (target.Retakes d wanted → run.2.target.write = target.write)) ∧
    (target.sidecar ≠ none → (run.2.isChanged = true ↔
      run.2.target.sidecar.map (·.content) ≠ target.sidecar.map (·.content))) := by
  have hload : outcome (load written given config) readView [] = (.ok target, _) := Prod.ext hload rfl
  have hsound := sound_of_load hload
  have hcache := fun entry hentry => (hcache entry hentry).sound
  cases hsidecar : target.sidecar with
  | none =>
      have hlegible : target.Legible := by
        rcases load_inversion hload with ⟨path, content, s, -, rfl⟩ | ⟨path, content, t, -, -, rfl⟩
        · cases hsidecar
        · exact (legible_of_text _ (some path) t).with_read_only _
      cases source with
      | none =>
          obtain ⟨hunchanged, hreport⟩ := pull_reports hlegible hcache wanted view hreturns
          exact ⟨hunchanged, fun _ _ => hreport, fun _ d h => absurd h.symm (Option.some_ne_none d),
            fun h => absurd rfl h⟩
      | some d =>
          obtain ⟨hunchanged, hreport⟩ := take_reports hlegible (hsource d rfl).sound cache wanted view
          refine ⟨hunchanged, fun _ h => absurd h (Option.some_ne_none d), fun _ d' hd' => ?_,
            fun h => absurd rfl h⟩
          obtain rfl := Option.some.inj hd'
          exact hreport
  | some s =>
      obtain ⟨hunchanged, hreport⟩ := sidecar_reports hsound hsidecar hcache wanted
        (fun d hd => (hsource d hd).sound) view hreturns
      rw [hsidecar] at hreport
      have hsome : some s ≠ none := Option.some_ne_none s
      exact ⟨hunchanged, fun h => absurd h hsome, fun h => absurd h hsome, fun _ => hreport⟩

/-- A target that takes its only section from an equal source takes again what it has. -/
theorem current_target_retakes :
    let view := filesOnly [(['t'], acceptedSource)]
    let target := ofFile ['#'] view ⟨.none, [['t']]⟩ acceptedSource
    let cache := SourceCache.empty (some ['#']) .empty
    let run := target.update cache [some ['s']] (some target) view
    ((load ['t'] (some ['#']) .empty).report view).1 = .ok target ∧ Arises target ∧ run.1 = .ok () ∧
      (run.2.isChanged = false → run.2.target = target) ∧
      (run.2.isChanged = true ↔
        run.2.target.write ≠ target.write ∨ target.Retakes target [some ['s']]) ∧
      (target.Retakes target [some ['s']] → run.2.target.write = target.write) ∧
      target.Retakes target [some ['s']] := by
  intro view target cache run
  have hfile : CommentFile view ['t'] ⟨.none, [['t']]⟩ acceptedSource.encode :=
    ⟨rfl, rfl, List.not_mem_nil, rfl, ⟨.none, [['t'] ++ Sidecar.extension]⟩, rfl, .inr rfl⟩
  obtain ⟨notices, hload⟩ := outcome_load hfile (Text.decode_encode _) ['#'] .empty []
  have hread : ((load ['t'] (some ['#']) .empty).report view).1 = .ok target := congrArg Prod.fst hload
  have harises : Arises target := .read ['#'] (some ⟨.none, [['t']]⟩) acceptedSource _
  have hreturns : run.1 = .ok () := ok_of_to_option (by decide +kernel)
  have hsidecar : target.sidecar = none := Option.isNone_iff_eq_none.1 (by decide +kernel)
  have hchanged : run.2.isChanged = true := by decide +kernel
  have hsame : run.2.target.write = target.write := by decide +kernel
  -- The rest holds of any target, so that nothing is evaluated below.
  clear_value target
  obtain ⟨hunchanged, -, hreport, -⟩ := update_reports_changes hread
    (fun _ h => absurd h List.not_mem_nil) [some ['s']] (fun d hd => Option.some.inj hd ▸ harises) view hreturns
  obtain ⟨hiff, hretakes⟩ := hreport hsidecar target rfl
  exact ⟨hread, harises, hreturns, hunchanged, hiff, hretakes,
    (hiff.1 hchanged).resolve_left (not_not.2 hsame)⟩

/-- An update from an equal source reports a change and leaves the target as it was, with all sections at
once and by name. -/
theorem current_target_reported :
    let view := filesOnly [(['t'], acceptedSource)]
    let target := ofFile ['#'] view ⟨.none, [['t']]⟩ acceptedSource
    let update (wanted : List (Option Text)) :=
      target.update (.empty (some ['#']) .empty) wanted (some target) view
    ((load ['t'] (some ['#']) .empty).report view).1.toOption = some target ∧ target.sidecar = none ∧
      ∀ wanted ∈ [[], [some ['s']]], (update wanted).1.toOption = some () ∧
        (update wanted).2.isChanged = true ∧ (update wanted).2.target = target := by
  decide +kernel

end Document

end TrackedSections
