import TrackedSections.Proofs.Document.Canonical
import TrackedSections.Proofs.Merge.Uncompiled

/-!
# What is in memory is what is read back

`Reachable` says that a document was read with a comment prefix and then accepted, untracked, merged
and pulled into in any order, each time with sources that came about in the same way. Each of these
steps keeps a document legible, so that `reachable_reread` holds: after a reachable document is
written, the same sections and properties are read from its text.
-/

namespace TrackedSections

open Text Effect

/-! ## Digests are words -/

namespace Digest

/-- A hexadecimal digit is no blank. -/
theorem is_blank_upper_digit {n : Nat} (h : n < 16) : isBlank (upperDigit n) = false := by
  revert n
  decide

/-- The digest of octets has as many octets as were asked for. -/
theorem length_octets_of (n value : Nat) : (octetsOf n value).length = n := by
  induction n generalizing value with
  | zero => rfl
  | succ n ih => rw [octetsOf, List.length_append, ih, List.length_singleton]

/-- A digest is written as a word. -/
theorem is_word_of_text (t : Text) : IsWord (ofText t) := by
  constructor
  · have hlength : (octets t.encode).length = 32 := by
      simp [octets, State.words, length_octets_of]
    intro hnil
    rw [ofText, ofBytes, upperHex, List.flatMap_eq_nil_iff] at hnil
    cases hoctets : octets t.encode with
    | nil => simp [hoctets] at hlength
    | cons b bs => simpa using hnil b (hoctets ▸ List.mem_cons_self)
  · intro c hc
    obtain ⟨b, -, hc⟩ := List.mem_flatMap.1 hc
    have hbound := b.toNat_lt
    simp only [List.mem_cons, List.not_mem_nil, or_false] at hc
    rcases hc with rfl | rfl
    · exact is_blank_upper_digit (by omega)
    · exact is_blank_upper_digit (by omega)

end Digest

/-! ## Steps that need no source -/

namespace Section

variable {commentPrefix : Text}

/-- A legible section stays legible when its content is accepted. -/
theorem Legible.accept {s : Section} (h : s.Legible commentPrefix) :
    s.accept.Legible commentPrefix := by
  cases s with
  | plain s => exact h
  | tracked s =>
      have hblock := h.block_valid
      have hcurrent : s.current = Digest.ofText s.content := h.current_eq s rfl
      have hword : IsWord s.current := hcurrent ▸ Digest.is_word_of_text s.content
      refine ⟨h.closed, fun p hp => ?_, fun t ht => ?_⟩
      · obtain rfl := List.mem_singleton.1 hp
        exact .block ⟨hblock.ne_nil, hblock.is_line, hblock.name_word, hblock.name_ne_whole_file,
          hword, hblock.source_word, hblock.content_line, hblock.content_is_content⟩
      · obtain rfl := Option.some.inj ht
        exact hcurrent

/-- A legible section stays legible when nothing tracks it any more. -/
theorem Legible.untracked {s : Tracked} (h : (Section.tracked s).Legible commentPrefix) :
    (Section.plain ⟨s.first, s.last, s.content⟩).Legible commentPrefix := by
  have hblock := h.block_valid
  refine ⟨h.closed, fun p hp => ?_, fun t ht => nomatch ht⟩
  obtain ⟨l, hl, rfl⟩ := List.mem_map.1 hp
  exact .line (hblock.content_line l hl) (hblock.content_is_content l hl)

end Section

namespace Document

variable {commentPrefix : Text}

/-- A document is legible and has a given comment prefix. -/
structure LegibleWith (commentPrefix : Text) (d : Document) : Prop where
  legible : d.Legible
  comment_prefix_eq : d.commentPrefix = commentPrefix

/-- The document of a text is legible with the comment prefix that it was read with. -/
theorem legible_with_of_text (commentPrefix : Text) (path : Option Path) (t : Text) :
    (ofText commentPrefix path t).1.LegibleWith commentPrefix :=
  ⟨legible_of_text commentPrefix path t, rfl⟩

/-- A legible document stays legible whether it may be written or not. -/
theorem LegibleWith.with_read_only {d : Document} (h : d.LegibleWith commentPrefix)
    (isReadOnly : Bool) : ({ d with isReadOnly } : Document).LegibleWith commentPrefix :=
  ⟨h.legible.with_read_only isReadOnly, h.comment_prefix_eq⟩

/-- Without a sidecar, the sections are accepted and nothing else changes. -/
theorem accept_eq {d : Document} (hsidecar : d.sidecar = none) :
    d.accept = { d with sections := d.sections.map (·.accept) } := by
  rw [Document.accept, hsidecar]

/-- Sections whose content is accepted keep their names. -/
theorem names_of_map_accept (sections : List Section) :
    namesOf (sections.map (·.accept)) = namesOf sections := by
  induction sections with
  | nil => rfl
  | cons s rest ih =>
      cases s with
      | plain s => exact ih
      | tracked s => exact congrArg (s.name :: ·) ih

/-- A legible document stays legible when everything in it is accepted. -/
theorem LegibleWith.accept {d : Document} (h : d.LegibleWith commentPrefix) :
    d.accept.LegibleWith commentPrefix := by
  have hlegible := h.legible
  rw [accept_eq hlegible.sidecar_eq_none]
  refine ⟨hlegible.with_sections ?_ ?_ d.markers, h.comment_prefix_eq⟩
  · exact List.forall_mem_map.2 fun s hs => (hlegible.section_legible s hs).accept
  · rw [names_of_map_accept]
    exact hlegible.nodup

/-- Without tracking for a section, the others are legible and have the names that they had. -/
theorem legible_of_untrack {name : Text} {sections rest : List Section}
    (h : untrack? name sections = some rest) (hsections : ∀ s ∈ sections, s.Legible commentPrefix) :
    (∀ s ∈ rest, s.Legible commentPrefix) ∧ (namesOf rest).Sublist (namesOf sections) := by
  induction sections generalizing rest with
  | nil => cases h
  | cons s others ih =>
      obtain ⟨hs, hothers⟩ := List.forall_mem_cons.1 hsections
      cases s with
      | plain s =>
          obtain ⟨rest, hrest, rfl⟩ := Option.map_eq_some_iff.1 h
          obtain ⟨hlegible, hnames⟩ := ih hrest hothers
          exact ⟨List.forall_mem_cons.2 ⟨hs, hlegible⟩, hnames⟩
      | tracked s =>
          rw [untrack?] at h
          split at h
          · obtain rfl := (Option.some.inj h).symm
            exact ⟨List.forall_mem_cons.2 ⟨hs.untracked, hothers⟩, List.sublist_cons_self _ _⟩
          · obtain ⟨rest, hrest, rfl⟩ := Option.map_eq_some_iff.1 h
            obtain ⟨hlegible, hnames⟩ := ih hrest hothers
            exact ⟨List.forall_mem_cons.2 ⟨hs, hlegible⟩, hnames.cons_cons _⟩

/-- A legible document stays legible without tracking for a section. -/
theorem LegibleWith.delete {d e : Document} {name : Text} (h : d.LegibleWith commentPrefix)
    (hdelete : d.delete? name = some e) : e.LegibleWith commentPrefix := by
  obtain ⟨sections, huntrack, rfl⟩ := Option.map_eq_some_iff.1 hdelete
  obtain ⟨hlegible, hnames⟩ := legible_of_untrack huntrack h.legible.section_legible
  exact ⟨h.legible.with_sections hlegible (h.legible.nodup.sublist hnames) _, h.comment_prefix_eq⟩

/-! ## Steps with a source -/

/-- The sections of a document with a comment prefix are legible if it has any. -/
theorem legible_of_mem_tracked {d : Document} {candidate : Tracked}
    (h : d.sections ≠ [] → d.LegibleWith commentPrefix) (hcandidate : candidate ∈ d.tracked) :
    (Section.tracked candidate).Legible commentPrefix := by
  obtain ⟨s, hs, htracked⟩ := List.mem_filterMap.1 hcandidate
  obtain ⟨hlegible, rfl⟩ := h (List.ne_nil_of_mem hs)
  cases s with
  | plain s => cases htracked
  | tracked s =>
      obtain rfl := Option.some.inj htracked
      exact hlegible.section_legible _ hs

/-- A legible document stays legible when it takes a section of such a document. -/
theorem LegibleWith.apply_section {target source : Document} {candidate : Tracked}
    (h : target.LegibleWith commentPrefix) (hsource : source.sections ≠ [] → source.LegibleWith commentPrefix)
    (hcandidate : candidate ∈ source.tracked) :
    (target.applySection candidate).target.LegibleWith commentPrefix := by
  obtain ⟨hlegible, rfl⟩ := h
  exact .mk (apply_section_legible hlegible (legible_of_mem_tracked hsource hcandidate)).1
    (apply_section_legible hlegible (legible_of_mem_tracked hsource hcandidate)).2

/-- A legible document stays legible when it takes from such a document. -/
theorem LegibleWith.apply {target source : Document} (h : target.LegibleWith commentPrefix)
    (hsource : source.LegibleWith commentPrefix) :
    (target.apply source).target.LegibleWith commentPrefix := by
  obtain ⟨hlegible, rfl⟩ := h
  obtain ⟨happlied, hcomment⟩ := apply_legible hlegible hsource.legible hsource.comment_prefix_eq
  exact ⟨happlied, hcomment⟩

/-- A legible document stays legible when it takes what is wanted from such a document. -/
theorem LegibleWith.take_from {target source : Document} (h : target.LegibleWith commentPrefix)
    (hsource : source.LegibleWith commentPrefix) (cache : SourceCache) (wanted : List (Option Text))
    (view : View) :
    (target.update cache wanted (some source) view).2.target.LegibleWith commentPrefix := by
  have htake : Maintains (Pulling.PullOf (LegibleWith commentPrefix) fun _ => True)
      (Pulling.takeFrom wanted source) :=
    Pulling.maintains_take_from (fun c hc d hd => hd.apply_section (fun _ => hsource) hc)
      (fun d hd => hd.apply hsource) wanted
  exact (htake view ⟨target, cache, false, []⟩ ⟨h, fun _ _ => trivial⟩).target

end Document

/-! ## Pulling -/

namespace Pulling

variable {commentPrefix : Text}

/-- All sources that were read so far are legible with a comment prefix, or have no sections. -/
def LegibleSources (commentPrefix : Text) (cache : SourceCache) : Prop :=
  ∀ entry ∈ cache.documents, entry.2.sections ≠ [] → entry.2.LegibleWith commentPrefix

/-- The target of a pull is legible if the sources that were read so far are. -/
def LegiblePull (commentPrefix : Text) (pull : Pull) : Prop :=
  LegibleSources commentPrefix pull.cache → pull.target.LegibleWith commentPrefix

/-- Keeping a source does not make more targets legible. -/
theorem LegiblePull.keeping {pull : Pull} (h : LegiblePull commentPrefix pull) (path : Path) (d : Document)
    (hsources : LegibleSources commentPrefix (pull.cache.keeping path d)) :
    pull.target.LegibleWith commentPrefix :=
  h fun entry hentry =>
    hsources entry ((SourceCache.documents_prefix_keeping pull.cache path d).subset hentry)

/-- Pulling a section keeps the target legible. -/
theorem legible_pull_section (wanted : List (Option Text)) (s : Tracked) :
    Maintains (LegiblePull commentPrefix) (pullSection wanted s) := by
  intro view pull hpull
  rcases pull_section_cases wanted s view pull with
    ⟨notices, hnothing⟩ | ⟨path, d, hdocument, ⟨notices, hfound⟩ | ⟨candidate, _, notices, hget, htaken⟩⟩
  · rw [hnothing]
    exact hpull
  · rw [hfound]
    exact hpull.keeping path d
  · rw [htaken]
    intro hsources
    exact (hpull.keeping path d hsources).apply_section
      (hsources (path, d) (SourceCache.mem_keeping hdocument)) (Document.mem_tracked_of_get hget)

/-- Pulling all that is wanted keeps a target without a sidecar legible. -/
theorem legible_pull_all {target : Document} (h : target.LegibleWith commentPrefix)
    (cache : SourceCache) (wanted : List (Option Text)) (view : View) :
    LegiblePull commentPrefix (target.update cache wanted none view).2 := by
  have hall : Maintains (LegiblePull commentPrefix) (target.tracked.forM (pullSection wanted)) :=
    maintains_for_m fun s _ => legible_pull_section wanted s
  rw [update_eq h.legible.sidecar_eq_none]
  exact hall view _ fun _ => h

end Pulling

/-! ## Reachable documents -/

namespace Document

variable {commentPrefix : Text}

/-- The documents that come from reading texts with a comment prefix, from accepting and from no longer
tracking sections, from taking sections out of such documents and from being created at a target.
What is pulled comes from the documents that the cache has in the end; those with sections must be
such documents too. -/
inductive Reachable (commentPrefix : Text) : Document → Prop where
  | read (path : Option Path) (t : Text) (isReadOnly : Bool) :
      Reachable commentPrefix { (ofText commentPrefix path t).1 with isReadOnly }
  | accept {d : Document} (h : Reachable commentPrefix d) : Reachable commentPrefix d.accept
  | delete {d e : Document} {name : Text} (h : Reachable commentPrefix d)
      (hdelete : d.delete? name = some e) : Reachable commentPrefix e
  | applySection {target source : Document} {candidate : Tracked}
      (htarget : Reachable commentPrefix target) (hsource : Reachable commentPrefix source)
      (hcandidate : candidate ∈ source.tracked) :
      Reachable commentPrefix (target.applySection candidate).target
  | apply {target source : Document} (htarget : Reachable commentPrefix target)
      (hsource : Reachable commentPrefix source) :
      Reachable commentPrefix (target.apply source).target
  | takeFrom {target source : Document} (cache : SourceCache) (wanted : List (Option Text))
      (view : View) (htarget : Reachable commentPrefix target)
      (hsource : Reachable commentPrefix source) :
      Reachable commentPrefix (target.update cache wanted (some source) view).2.target
  | pull {target : Document} (cache : SourceCache) (wanted : List (Option Text)) (view : View)
      (htarget : Reachable commentPrefix target)
      (hsources : ∀ entry ∈ (target.update cache wanted none view).2.cache.documents,
        entry.2.sections ≠ [] → Reachable commentPrefix entry.2) :
      Reachable commentPrefix (target.update cache wanted none view).2.target
  | create {d : Document} (path : Path) (h : Reachable commentPrefix d) :
      Reachable commentPrefix (d.createdFrom path)

/-- Every reachable document is legible. -/
theorem Reachable.legible_with {d : Document} (h : Reachable commentPrefix d) :
    d.LegibleWith commentPrefix := by
  induction h with
  | read path t isReadOnly =>
      exact (legible_with_of_text commentPrefix path t).with_read_only isReadOnly
  | accept _ ih => exact ih.accept
  | delete _ hdelete ih => exact ih.delete hdelete
  | applySection _ _ hcandidate ihtarget ihsource =>
      exact ihtarget.apply_section (fun _ => ihsource) hcandidate
  | apply _ _ ihtarget ihsource => exact ihtarget.apply ihsource
  | takeFrom cache wanted view _ _ ihtarget ihsource =>
      exact ihtarget.take_from ihsource cache wanted view
  | pull cache wanted view _ _ ihtarget ihsources =>
      exact Pulling.legible_pull_all ihtarget cache wanted view ihsources
  | create path _ ih => exact ⟨ih.legible.created_from path, ih.comment_prefix_eq⟩

/-- A document that was loaded with a comment prefix is reachable, if it has sections. -/
theorem reachable_of_load {written : Text} {config : Config} {view : View}
    {notices notices' : List Notice} {d : Document}
    (h : outcome (load written (some commentPrefix) config) view notices = (.ok d, notices'))
    (hsections : d.sections ≠ []) : Reachable commentPrefix d := by
  rcases load_cases h with ⟨s, path, isReadOnly, rfl⟩ | ⟨path, content, t, -, -, rfl⟩
  · exact absurd rfl hsections
  · exact .read (some path) t _

/-- A cache reads with a comment prefix, and what it read so far is reachable, if it has sections. -/
structure ReachableSources (commentPrefix : Text) (cache : SourceCache) : Prop where
  comment_prefix_eq : cache.commentPrefix = some commentPrefix
  reachable : ∀ entry ∈ cache.documents, entry.2.sections ≠ [] → Reachable commentPrefix entry.2

/-- A cache without documents has none that is not reachable. -/
theorem reachable_sources_empty (commentPrefix : Text) (config : Config) :
    ReachableSources commentPrefix (.empty (some commentPrefix) config) :=
  ⟨rfl, fun _ hentry => nomatch hentry⟩

/-- A cache of reachable documents that keeps what it gives is such a cache. -/
theorem ReachableSources.keeping {cache : SourceCache} (h : ReachableSources commentPrefix cache)
    {view : View} {path : Path} {d : Document} (hdocument : cache.documentAt view path = .ok d) :
    ReachableSources commentPrefix (cache.keeping path d) := by
  refine ⟨(cache.comment_prefix_keeping path d).trans h.comment_prefix_eq, fun entry hentry hsections => ?_⟩
  rcases SourceCache.of_mem_keeping hdocument hentry with hold | ⟨_, hload⟩
  · exact h.reachable entry hold hsections
  · rw [h.comment_prefix_eq] at hload
    exact reachable_of_load hload hsections

/-- Pulling a section leaves a cache of reachable documents. -/
theorem maintains_reachable_sources (wanted : List (Option Text)) (s : Tracked) :
    Maintains (fun pull => ReachableSources commentPrefix pull.cache)
      (Pulling.pullSection wanted s) := by
  intro view pull hpull
  rcases Pulling.pull_section_cases wanted s view pull with
    ⟨_, hnothing⟩ | ⟨path, d, hdocument, ⟨_, hfound⟩ | ⟨_, _, _, -, htaken⟩⟩
  · rw [hnothing]
    exact hpull
  · rw [hfound]
    exact hpull.keeping hdocument
  · rw [htaken]
    exact hpull.keeping hdocument

/-- What pulls with a cache that reads with the comment prefix is reachable afterwards. -/
theorem Reachable.pull_with_prefix {target : Document} (h : Reachable commentPrefix target)
    {cache : SourceCache} (hcache : ReachableSources commentPrefix cache)
    (wanted : List (Option Text)) (view : View) :
    Reachable commentPrefix (target.update cache wanted none view).2.target ∧
      ReachableSources commentPrefix (target.update cache wanted none view).2.cache := by
  have hall : Maintains (fun pull => ReachableSources commentPrefix pull.cache)
      (target.tracked.forM (Pulling.pullSection wanted)) :=
    maintains_for_m fun s _ => maintains_reachable_sources wanted s
  have hsources : ReachableSources commentPrefix (target.update cache wanted none view).2.cache := by
    rw [Pulling.update_eq h.legible_with.legible.sidecar_eq_none]
    exact hall view _ hcache
  exact ⟨.pull cache wanted view h hsources.reachable, hsources⟩

/-- What a legible document says about the whole file is read back once it is written. -/
theorem Legible.properties_reread {d : Document} (h : d.Legible) (path : Option Path) :
    (ofText d.commentPrefix path d.write).1.target = d.target ∧
      (ofText d.commentPrefix path d.write).1.permissionsArgument = d.permissionsArgument := by
  obtain ⟨kept, closed, hread, hreadable, -, hkept⟩ := h.reread path
  obtain ⟨htarget, hpermissions⟩ := hreadable.properties_of_parts path closed
  have hfind (kind : MarkerKind) : kept.findSome? (Part.argument? kind) =
      d.propertyParts.findSome? (Part.argument? kind) := by
    rw [← d.find_argument_parts kind]
    rcases hkept with rfl | hconcat
    · rfl
    · rw [hconcat, List.findSome?_append]
      exact (Option.or_none).symm
  have hproperties : d.propertyParts.findSome? (Part.argument? .target) = d.target ∧
      d.propertyParts.findSome? (Part.argument? .permissions) = d.permissionsArgument := by
    rw [propertyParts]
    cases d.target <;> cases d.permissionsArgument <;> exact ⟨rfl, rfl⟩
  rw [hread, htarget, hpermissions, hfind, hfind]
  exact hproperties

/-- A document is as modified as its sections wherever they stand. -/
theorem is_modified_of_unplaced {d e : Document} (hd : d.sidecar = none) (he : e.sidecar = none)
    (h : d.tracked.map (·.unplaced) = e.tracked.map (·.unplaced)) :
    d.isModified = e.isModified := by
  have hany (f : Document) : f.tracked.any (·.isModified) =
      (f.tracked.map (·.unplaced)).any (·.isModified) := by
    rw [List.any_map]
    rfl
  rw [isModified, isModified, hd, he]
  dsimp only
  rw [hany, hany, h]

/-- Of a reachable document, the text that is written is read back as the same sections in the same
order, with the same name, content, digests and source each, and with the same target and
permissions. -/
theorem reachable_reread {d : Document} (h : Reachable commentPrefix d) (path : Option Path) :
    let reread := (ofText commentPrefix path d.write).1
    reread.tracked.map (·.unplaced) = d.tracked.map (·.unplaced) ∧
      reread.isModified = d.isModified ∧ reread.target = d.target ∧
      reread.permissionsArgument = d.permissionsArgument := by
  obtain ⟨hlegible, rfl⟩ := h.legible_with
  have hunplaced := hlegible.unplaced_reread path
  have hreread := legible_of_text d.commentPrefix path d.write
  exact ⟨hunplaced,
    is_modified_of_unplaced hreread.sidecar_eq_none hlegible.sidecar_eq_none hunplaced,
    hlegible.properties_reread path⟩

/-- A file whose only section comes from the file `f`. -/
def sourcedTarget : Text :=
  ("#... s begin\n#... s hash 01D09D19C2139A46AEBFB577780D123D7396E97201BC7EAD210A2EBFF8239DEE\n" ++
    "#... s source f\nold\n#... s end").toList

/-- A source whose only section is as it was accepted. -/
def acceptedSource : Text :=
  ("#... s begin\n#... s hash 7AA7A5359173D05B63CFD682E3C38487F3CB4F7F1D60659FE59FAB1505977D4C\n" ++
    "new\n#... s end\n").toList

/-- What was pulled from a file, then accepted and created elsewhere, is read back as it is. -/
theorem pulled_file_reread :
    let target : Document := { (ofText ['#'] none sourcedTarget).1 with isReadOnly := false }
    let pulled := target.update (.empty (some ['#']) .empty) [] none
      (filesOnly [(['f'], acceptedSource)])
    let d := pulled.2.target.accept.createdFrom ⟨.none, [['g']]⟩
    let reread := (ofText ['#'] none d.write).1
    Reachable ['#'] d ∧ d.tracked.map (·.content) = ["new\n".toList] ∧
      reread.tracked.map (·.unplaced) = d.tracked.map (·.unplaced) ∧
      reread.isModified = d.isModified ∧ reread.target = d.target ∧
      reread.permissionsArgument = d.permissionsArgument := by
  intro target pulled d reread
  have hcontent : d.tracked.map (·.content) = ["new\n".toList] := by decide +kernel
  have htarget : Reachable ['#'] target := .read none sourcedTarget false
  -- The rest holds of any target, so that nothing is evaluated below.
  clear_value target
  have hpulled : Reachable ['#'] pulled.2.target :=
    (htarget.pull_with_prefix (reachable_sources_empty ['#'] .empty) [] _).1
  have hreachable : Reachable ['#'] d := hpulled.accept.create ⟨.none, [['g']]⟩
  exact ⟨hreachable, hcontent, reachable_reread hreachable none⟩

end Document

end TrackedSections
