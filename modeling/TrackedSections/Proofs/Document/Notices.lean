import TrackedSections.Proofs.Document.Legible
import TrackedSections.Proofs.Marker.Grammar

/-!
# What becomes of the markers of a file

When a file is read, markers of sections that cannot be tracked are dropped, and so are markers of the whole
file with other kinds than target and permissions. Read `marker_reproduced_or_told_iff` first: a marker
with a meaning is written again with the document, or a notice concerns it. Only a second target or second
permissions of the file, with another argument than the first, are lost without a word.
-/

namespace TrackedSections

open Text Assembly MarkerIndex

/-! ## Notices about markers -/

/-- The name that a fault is about. -/
def Tracked.Fault.name : Tracked.Fault → Text
  | .lacksMarkers name => name
  | .endsBeforeBegin name _ _ => name

/-- A notice is about the section of a marker, or about its kind and its line. -/
def Notice.Concerns (m : Marker) : Notice → Prop
  | .defectiveSection name _ => name = m.scope
  | .unusableMarkers fault => fault.name = m.scope
  | .overlap one other => one.name = m.scope ∨ other.name = m.scope
  | .ignoredMarker kind line => kind = m.kind ∧ line = m.line
  | .undecodedPermissions _ line => m.kind = .permissions ∧ line = m.line
  | _ => False

/-- A notice that concerns a marker shows the name of its section, or its keyword and the number of its
line. -/
theorem Notice.Concerns.mentions {m : Marker} {notice : Notice} (h : notice.Concerns m) :
    m.scope.quoted <:+: notice.message ∨
      m.kind.keyword <:+: notice.message ∧ Text.ofInt m.line <:+: notice.message := by
  -- Every message is spelled out first, as far as it matters.
  cases notice with
  | defectiveSection name defect =>
      obtain rfl : name = m.scope := h
      left
      cases defect with
      | repeatedKind => exact List.infix_append "section ".toList _ _
      | missing kinds =>
          show _ <:+: "section ".toList ++ _ ++ _ ++ _ ++ _
          simp only [List.append_assoc]
          exact List.infix_append' _ _ _
  | unusableMarkers fault =>
      left
      cases fault with
      | lacksMarkers name =>
          obtain rfl : name = m.scope := h
          exact List.infix_append "section ".toList _ _
      | endsBeforeBegin name stop start =>
          obtain rfl : name = m.scope := h
          show _ <:+: "section ".toList ++ _ ++ _ ++ _ ++ _ ++ _
          simp only [List.append_assoc]
          exact List.infix_append' _ _ _
  | overlap one other =>
      have hrange (s : Tracked) : s.name.quoted <:+: sectionRange s := by
        simp only [sectionRange, List.append_assoc]
        exact (List.prefix_append _ _).isInfix
      left
      show _ <:+: "sections ".toList ++ sectionRange one ++ _ ++ sectionRange other ++ _
      rcases h with hname | hname
      · rw [← hname]
        refine (hrange one).trans ?_
        simp only [List.append_assoc]
        exact List.infix_append' _ _ _
      · rw [← hname]
        exact (hrange other).trans (List.infix_append _ _ _)
  | ignoredMarker kind line =>
      obtain ⟨rfl, rfl⟩ : kind = m.kind ∧ line = m.line := h
      right
      show _ <:+: "ignoring file-scoped ".toList ++ _ ++ _ ++ _ ∧
        _ <:+: "ignoring file-scoped ".toList ++ _ ++ _ ++ _
      simp only [List.append_assoc]
      refine ⟨List.infix_append' _ _ _, ?_⟩
      rw [← List.append_assoc, ← List.append_assoc]
      exact (List.suffix_append _ _).isInfix
  | undecodedPermissions argument line =>
      obtain ⟨hkind, rfl⟩ : m.kind = .permissions ∧ line = m.line := h
      right
      show _ <:+: "cannot decode permissions ".toList ++ _ ++ _ ++ _ ∧
        _ <:+: "cannot decode permissions ".toList ++ _ ++ _ ++ _
      have hkeyword : m.kind.keyword <:+: "cannot decode permissions ".toList := by
        rw [hkind]
        exact ⟨"cannot decode ".toList, [' '], rfl⟩
      refine ⟨?_, (List.suffix_append _ _).isInfix⟩
      simp only [List.append_assoc]
      exact hkeyword.trans (List.prefix_append _ _).isInfix
  | _ => exact h.elim

namespace Assembly

/-! ## Sections that are not tracked -/

/-- The index names each section that cannot be tracked, and what is wrong with it. -/
theorem mem_defects_iff {ms : List Marker} {name : Text} {defect : Defect} :
    (name, defect) ∈ (ofList ms).defects ↔
      name ∈ names ms ∧ groupDefect? (name, own ms name) = some defect := by
  rw [defects, groups_of_list, List.filterMap_map, List.mem_filterMap]
  constructor
  · rintro ⟨other, hother, hdefect⟩
    obtain ⟨found, hfound, heq⟩ := Option.map_eq_some_iff.1 hdefect
    obtain ⟨rfl, rfl⟩ := Prod.mk.inj heq
    exact ⟨hother, hfound⟩
  · rintro ⟨hname, hdefect⟩
    exact ⟨name, hname, by simp [hdefect]⟩

/-- The notice about a name for which no section can be built. -/
def faultNotice? (index : MarkerIndex) (name : Text) : Option Notice :=
  match Tracked.ofIndex index name with
  | .error fault => some (.unusableMarkers fault)
  | .ok _ => none

/-- A notice is given for each name for which no section can be built. -/
theorem build_snd (index : MarkerIndex) (ns : List Text) :
    (build index ns).2 = ns.filterMap (faultNotice? index) := by
  induction ns with
  | nil => rfl
  | cons name ns ih =>
      rw [build, List.filterMap_cons, ← ih, faultNotice?]
      cases Tracked.ofIndex index name <;> rfl

/-- A fault is about the name that a section was to be built for. -/
theorem name_of_fault {index : MarkerIndex} {name : Text} {fault : Tracked.Fault}
    (h : Tracked.ofIndex index name = .error fault) : fault.name = name := by
  unfold Tracked.ofIndex at h
  split at h
  · split at h
    · obtain rfl := Except.error.inj h
      rfl
    · obtain rfl := Except.error.inj h
      rfl
    · split at h
      · obtain rfl := Except.error.inj h
        rfl
      · cases h
  · obtain rfl := Except.error.inj h
    rfl

/-- A section is kept, or it overlaps with another one and a notice says so. -/
theorem kept_or_overlap {ts : List Tracked} {t : Tracked} (h : t ∈ ts) :
    t ∈ (dropOverlapping ts).1 ∨
      ∃ one other, .overlap one other ∈ (dropOverlapping ts).2 ∧ (t = one ∨ t = other) := by
  fun_induction dropOverlapping ts with
  | case1 => cases h
  | case2 s => exact .inl h
  | case3 s next rest hlt kept notices heq ih =>
      rw [heq] at ih
      rcases List.mem_cons.1 h with rfl | h
      · exact .inr ⟨t, next, List.mem_cons_self, .inl rfl⟩
      rcases List.mem_cons.1 h with rfl | h
      · exact .inr ⟨s, t, List.mem_cons_self, .inr rfl⟩
      rcases ih h with hkept | ⟨one, other, hnotice, ht⟩
      · exact .inl hkept
      · exact .inr ⟨one, other, List.mem_cons_of_mem _ hnotice, ht⟩
  | case4 s next rest hge kept notices heq ih =>
      rw [heq] at ih
      rcases List.mem_cons.1 h with rfl | h
      · exact .inl List.mem_cons_self
      rcases ih h with hkept | hnotice
      · exact .inl (List.mem_cons_of_mem _ hkept)
      · exact .inr hnotice

/-- Overlaps are those of sections that were there. -/
theorem mem_of_overlap {ts : List Tracked} {notice : Notice} (h : notice ∈ (dropOverlapping ts).2) :
    ∃ one ∈ ts, ∃ other ∈ ts, notice = .overlap one other := by
  fun_induction dropOverlapping ts with
  | case1 | case2 s => cases h
  | case3 s next rest hlt kept notices heq ih =>
      rw [heq] at ih
      rcases List.mem_cons.1 h with rfl | h
      · exact ⟨s, List.mem_cons_self, next, List.mem_cons_of_mem _ List.mem_cons_self, rfl⟩
      obtain ⟨one, hone, other, hother, hnotice⟩ := ih h
      exact ⟨one, List.mem_cons_of_mem _ (List.mem_cons_of_mem _ hone), other,
        List.mem_cons_of_mem _ (List.mem_cons_of_mem _ hother), hnotice⟩
  | case4 s next rest hge kept notices heq ih =>
      rw [heq] at ih
      obtain ⟨one, hone, other, hother, hnotice⟩ := ih h
      exact ⟨one, List.mem_cons_of_mem _ hone, other, List.mem_cons_of_mem _ hother, hnotice⟩

/-- The section that is built for a name has the argument of its hash marker and of its source marker. -/
theorem argument_of_index {ms : List Marker} {m : Marker} (hm : m ∈ ms)
    (hnodup : ((own ms m.scope).map (·.kind)).Nodup) (hvalid : m.scope ∈ validNames ms) {t : Tracked}
    (h : Tracked.ofIndex (ofList ms).validate m.scope = .ok t) :
    (m.kind = .hash → m.argument = some t.accepted) ∧ (m.kind = .source → m.argument = t.source) := by
  have hget : (ofList ms).validate.get? m.scope m.kind = some m := by
    rw [get_validate hvalid]
    exact find_of_nodup_kinds hnodup (List.mem_filter.2 ⟨hm, by simp⟩)
  unfold Tracked.ofIndex at h
  split at h
  · next start stop hash hstart hstop hhash =>
      split at h
      · cases h
      · cases h
      · next accepted _ haccepted =>
          split at h
          · cases h
          · obtain rfl := Except.ok.inj h
            refine ⟨fun hkind => ?_, fun hkind => ?_⟩
            · rw [hkind, hhash] at hget
              rw [← Option.some.inj hget, haccepted]
            · rw [hkind] at hget
              simp [hget]
  · cases h

/-- A marker of a section is not one of the whole file. -/
theorem scope_ne_whole_file {commentPrefix : Text} {ls : List Text} {m : Marker}
    (hm : m ∈ sectionMarks commentPrefix ls) : m.scope ≠ Marker.wholeFile := by
  simpa [Marker.describesFile] using (List.mem_filter.1 hm).2

/-- A marker on some lines stands on the line with its number. -/
theorem mem_marks_from_iff {commentPrefix : Text} {ls : List Text} {m : Marker} (start : Int) :
    m ∈ marksFrom commentPrefix start ls ↔
      ∃ (k : Nat) (l : Text), ls[k]? = some l ∧ Marker.read commentPrefix (start + k) l = .marker m := by
  have hmarker (reading : Marker.Reading) : m ∈ reading.marker?.toList ↔ reading = .marker m := by
    cases reading <;> simp [Marker.Reading.marker?, eq_comm]
  induction ls generalizing start with
  | nil => simp [marksFrom, number]
  | cons l ls ih =>
      rw [marks_from_cons, List.mem_append]
      refine (or_congr (hmarker _) (ih (start + 1))).trans ?_
      constructor
      · rintro (hread | ⟨k, l', hl', hread⟩)
        · exact ⟨0, l, rfl, by simpa using hread⟩
        · refine ⟨k + 1, l', hl', ?_⟩
          rw [← hread]
          congr 1
          push_cast
          omega
      · rintro ⟨k, l', hl', hread⟩
        cases k with
        | zero =>
            obtain rfl := Option.some.inj hl'
            exact .inl (by simpa using hread)
        | succ k =>
            refine .inr ⟨k, l', hl', ?_⟩
            rw [← hread]
            congr 1
            push_cast
            omega

end Assembly

/-- A marker of the whole file on the lines of some parts is one of them. -/
theorem Part.Readable.property_of_mem_marks {commentPrefix : Text} {parts : List Part}
    (h : Part.Readable commentPrefix parts) {m : Marker} {start : Int}
    (hm : m ∈ marksFrom commentPrefix start (Part.linesOf commentPrefix parts))
    (hfile : m.describesFile = true) :
    ∃ argument, m.argument = some argument ∧ Part.property m.kind argument ∈ parts := by
  induction parts generalizing start with
  | nil => cases hm
  | cons p rest ih =>
      rw [h.marks_from_cons] at hm
      rcases List.mem_append.1 hm with hm | hm
      · cases p with
        | line text => cases hm
        | property kind argument =>
            obtain rfl := List.mem_singleton.1 hm
            exact ⟨argument, rfl, List.mem_cons_self⟩
        | block b =>
            cases h.head with
            | block hblock =>
                rw [Part.Valid.describes_file_of_block hblock hm] at hfile
                cases hfile
      · obtain ⟨argument, hargument, hmem⟩ := ih h.tail hm
        exact ⟨argument, hargument, List.mem_cons_of_mem _ hmem⟩

/-- A block among some parts is one of them. -/
theorem Part.mem_of_mem_blocks {b : Block} {parts : List Part} (h : b ∈ Part.blocks parts) :
    .block b ∈ parts := by
  obtain ⟨p, hp, hblock⟩ := List.mem_filterMap.1 h
  cases p with
  | line text | property kind argument => cases hblock
  | block other =>
      obtain rfl := Option.some.inj hblock
      exact hp

namespace Document

variable {commentPrefix : Text} {path : Option Path} {finalNewline : Bool} {ls : List Text} {m : Marker}

/-- What there is to say about a file: about its lines, about sections whose markers are not right, about names
that no section can be built for, and about overlaps. -/
theorem notices_of_lines :
    let ms := sectionMarks commentPrefix ls
    (ofLines commentPrefix path finalNewline ls).2 =
      (readLines commentPrefix ls).filterMap
          (lineNotice? (property? .permissions (marksFrom commentPrefix 1 ls))) ++
        (ofList ms).defects.map (fun (name, defect) => .defectiveSection name defect) ++
        (ofList ms).validate.sections.filterMap (faultNotice? (ofList ms).validate) ++
        (dropOverlapping ((built ms).mergeSort fun s t => s.first ≤ t.first)).2 := by
  intro ms
  rw [← build_snd]
  simp only [ofLines, markers_of_read_lines]
  rfl

/-- A marker of a section is one of those that the document of its file is written with, or a notice concerns it. -/
theorem section_marker_cases (path : Option Path) (finalNewline : Bool)
    (hm : m ∈ sectionMarks commentPrefix ls) :
    (∃ t ∈ (ofLines commentPrefix path finalNewline ls).1.tracked, t.name = m.scope ∧
      (m.kind = .hash → m.argument = some t.accepted) ∧ (m.kind = .source → m.argument = t.source)) ∨
    ∃ notice ∈ (ofLines commentPrefix path finalNewline ls).2, notice.Concerns m := by
  have hfile := scope_ne_whole_file hm
  rw [notices_of_lines, tracked_of_lines]
  generalize sectionMarks commentPrefix ls = ms at hm
  have hname : m.scope ∈ MarkerIndex.names ms := mem_names.2 ⟨m, hm, rfl⟩
  simp only [List.mem_append, List.mem_map, List.mem_filterMap]
  cases hdefect : groupDefect? (m.scope, own ms m.scope) with
  | some defect =>
      exact .inr ⟨_, .inl (.inl (.inr ⟨_, mem_defects_iff.2 ⟨hname, hdefect⟩, rfl⟩)), rfl⟩
  | none =>
      have hvalid : m.scope ∈ validNames ms := List.mem_filter.2 ⟨hname, by rw [hdefect]; rfl⟩
      have hsection : m.scope ∈ (ofList ms).validate.sections := mem_sections_validate.2 ⟨hvalid, hfile⟩
      cases hindex : Tracked.ofIndex (ofList ms).validate m.scope with
      | error fault =>
          refine .inr ⟨.unusableMarkers fault, .inl (.inr ⟨m.scope, hsection, ?_⟩), name_of_fault hindex⟩
          rw [faultNotice?, hindex]
      | ok t =>
          have hnodup : ((own ms m.scope).map (·.kind)).Nodup := by
            rw [groupDefect?, if_neg hfile] at hdefect
            exact (defect_eq_none.1 hdefect).1
          have hargument := argument_of_index hm hnodup hvalid hindex
          have ht : t ∈ (built ms).mergeSort fun s t => s.first ≤ t.first := by
            rw [List.mem_mergeSort, built, build_fst, List.mem_filterMap]
            exact ⟨m.scope, hsection, by rw [hindex]; rfl⟩
          have htname := (built_from_of_index hvalid hindex).1
          rcases kept_or_overlap ht with hkept | ⟨one, other, hoverlap, hsame⟩
          · exact .inl ⟨_, ⟨t, hkept, rfl⟩, htname, hargument⟩
          · refine .inr ⟨_, .inr hoverlap, ?_⟩
            rcases hsame with rfl | rfl
            · exact .inl htname
            · exact .inr htname

/-! ## Markers that are written again -/

/-- A line of the text that the document is written as is read as a marker of the same section, kind and
argument. -/
def Reproduces (d : Document) (m : Marker) : Prop :=
  ∃ (k : Nat) (l : Text), d.write.lines.1[k]? = some l ∧
    Marker.read d.commentPrefix (k + 1) l = .marker { m with line := k + 1 }

/-- The file of a legible document has the lines of its parts, perhaps without an empty one. -/
theorem Legible.lines_of_parts {d : Document} (h : d.Legible) :
    ∃ kept, d.write.lines.1 = Part.linesOf d.commentPrefix kept ∧ Part.Readable d.commentPrefix kept ∧
      ∀ p, p ≠ .line [] → (p ∈ kept ↔ p ∈ d.parts) := by
  obtain ⟨kept, closed, hlines, hreadable, -, hkept⟩ := h.readable.lines_write d.finalNewline
  refine ⟨kept, by rw [h.write_eq, hlines], hreadable, fun p hp => ?_⟩
  rcases hkept with rfl | hconcat
  · exact Iff.rfl
  · rw [hconcat, List.mem_append, List.mem_singleton]
    exact (or_iff_left hp).symm

/-- A legible document reproduces the markers that its parts are written with. -/
theorem Legible.reproduces {d : Document} (h : d.Legible) (hne : d.commentPrefix ≠ []) (hm : m.WellFormed)
    {p : Part} (hp : p ∈ d.parts)
    (hrow : Marker.row d.commentPrefix m.kind m.scope m.argument ∈ p.lines d.commentPrefix) :
    d.Reproduces m := by
  obtain ⟨kept, hlines, -, hkept⟩ := h.lines_of_parts
  -- The line that may be lost is empty, and no marker is.
  have hnonempty : p ≠ .line [] := by
    rintro rfl
    exact Marker.row_ne_nil _ _ _ (List.mem_singleton.1 hrow)
  obtain ⟨k, hk⟩ := List.mem_iff_getElem?.1
    (List.mem_flatMap.2 ⟨p, (hkept p hnonempty).2 hp, hrow⟩ :
      Marker.row d.commentPrefix m.kind m.scope m.argument ∈ Part.linesOf d.commentPrefix kept)
  have hm' : ({ m with line := (k : Int) + 1 } : Marker).WellFormed :=
    ⟨hm.scope_word, hm.argument_word, hm.check_eq_none⟩
  exact ⟨k, _, by rwa [hlines], Marker.read_row hne hm'⟩

/-- The properties of a file are the first target and the first permissions that it names. -/
theorem mem_property_parts_iff {kind : MarkerKind} {argument : Text} :
    .property kind argument ∈ (ofLines commentPrefix path finalNewline ls).1.propertyParts ↔
      (kind = .target ∨ kind = .permissions) ∧
        (property? kind (marksFrom commentPrefix 1 ls)).bind (·.argument) = some argument := by
  have htarget : (ofLines commentPrefix path finalNewline ls).1.target =
      (property? .target (marksFrom commentPrefix 1 ls)).bind (·.argument) := by
    rw [← markers_of_read_lines]
    rfl
  have hpermissions : (ofLines commentPrefix path finalNewline ls).1.permissionsArgument =
      (property? .permissions (marksFrom commentPrefix 1 ls)).bind (·.argument) := by
    rw [← markers_of_read_lines]
    rfl
  rw [propertyParts, htarget, hpermissions, List.mem_append, Option.mem_toList, Option.mem_toList,
    Option.map_eq_some_iff, Option.map_eq_some_iff]
  constructor
  · rintro (⟨found, hfound, heq⟩ | ⟨found, hfound, heq⟩) <;> obtain ⟨rfl, rfl⟩ := Part.property.inj heq
    · exact ⟨.inl rfl, hfound⟩
    · exact ⟨.inr rfl, hfound⟩
  · rintro ⟨rfl | rfl, hfound⟩
    · exact .inl ⟨argument, hfound, rfl⟩
    · exact .inr ⟨argument, hfound, rfl⟩

/-! ## Markers of the whole file -/

/-- A marker is a target or permissions of the whole file, and the one that counts has another argument. -/
def Overridden (markers : List Marker) (m : Marker) : Prop :=
  m.describesFile = true ∧ (m.kind = .target ∨ m.kind = .permissions) ∧
    ∃ first, property? m.kind markers = some first ∧ first.argument ≠ m.argument

/-- Each marker of the whole file that is no property is reported with its kind and its line. -/
theorem ignored_of_describes_file (hm : m ∈ marksFrom commentPrefix 1 ls) (hfile : m.describesFile = true)
    (htarget : m.kind ≠ .target) (hpermissions : m.kind ≠ .permissions) :
    .ignoredMarker m.kind m.line ∈ (ofLines commentPrefix path finalNewline ls).2 := by
  rw [notices_of_lines]
  refine List.mem_append_left _ (List.mem_append_left _ (List.mem_append_left _ ?_))
  rw [← markers_of_read_lines] at hm
  obtain ⟨line, hline, hmarker⟩ := List.mem_filterMap.1 hm
  refine List.mem_filterMap.2 ⟨line, hline, ?_⟩
  have hread : line.reading = .marker m := by
    cases hreading : line.reading <;> simp_all [Marker.Reading.marker?]
  rw [lineNotice?, hread]
  dsimp only
  rw [if_pos hfile, propertyNotice?]
  split <;> first | contradiction | rfl

/-- The marker of the whole file that counts for its kind, or one that says the same, is a property of the
document. -/
theorem property_of_not_overridden (path : Option Path) (finalNewline : Bool)
    (hm : m ∈ marksFrom commentPrefix 1 ls) (hfile : m.describesFile = true)
    (hkind : m.kind = .target ∨ m.kind = .permissions)
    (h : ¬ Overridden (marksFrom commentPrefix 1 ls) m) :
    ∃ argument, m.argument = some argument ∧
      .property m.kind argument ∈ (ofLines commentPrefix path finalNewline ls).1.propertyParts := by
  obtain ⟨first, hfirst⟩ : ∃ first, property? m.kind (marksFrom commentPrefix 1 ls) = some first := by
    refine Option.isSome_iff_exists.1 (List.find?_isSome.2 ⟨m, hm, ?_⟩)
    simp [hfile]
  have hsame : first.argument = m.argument := by
    by_contra hne
    exact h ⟨hfile, hkind, first, hfirst, hne⟩
  obtain ⟨argument, hargument⟩ := (mem_marks_from hm).2.1.argument_of_kind <| by
    rcases hkind with hkind | hkind <;> simp [hkind]
  refine ⟨argument, hargument, mem_property_parts_iff.2 ⟨hkind, ?_⟩⟩
  rw [hfirst, Option.bind_some, hsame, hargument]

/-- A notice about a section does not concern a marker of the whole file. -/
theorem not_concerns_of_section_notice (hfile : m.describesFile = true) {notice : Notice}
    (h : let ms := sectionMarks commentPrefix ls
      notice ∈ (ofList ms).defects.map (fun (name, defect) => .defectiveSection name defect) ∨
        notice ∈ (ofList ms).validate.sections.filterMap (faultNotice? (ofList ms).validate) ∨
        notice ∈ (dropOverlapping ((built ms).mergeSort fun s t => s.first ≤ t.first)).2) :
    ¬ notice.Concerns m := by
  have hscope : m.scope = Marker.wholeFile := of_decide_eq_true hfile
  intro hconcerns
  rcases h with hdefect | hfault | hoverlap
  · obtain ⟨⟨name, defect⟩, hmem, rfl⟩ := List.mem_map.1 hdefect
    obtain ⟨other, hother, hname⟩ := mem_names.1 (mem_defects_iff.1 hmem).1
    exact scope_ne_whole_file hother (hname.trans (hconcerns.trans hscope))
  · obtain ⟨name, hname, hnotice⟩ := List.mem_filterMap.1 hfault
    rw [faultNotice?] at hnotice
    split at hnotice
    · next fault hindex =>
        obtain rfl := Option.some.inj hnotice
        have : name = m.scope := (name_of_fault hindex).symm.trans hconcerns
        exact (mem_sections_validate.1 hname).2 (this.trans hscope)
    · cases hnotice
  · obtain ⟨one, hone, other, hother, rfl⟩ := mem_of_overlap hoverlap
    have hne {s : Tracked} (hs : s ∈ (built (sectionMarks commentPrefix ls)).mergeSort
        fun s t => s.first ≤ t.first) : s.name ≠ m.scope := fun hname =>
      (mem_sections_validate.1 (mem_built (List.mem_mergeSort.1 hs)).1).2 (hname.trans hscope)
    rcases hconcerns with hname | hname
    · exact hne hone hname
    · exact hne hother hname

/-- A notice about a line is about a line that breaks a rule for markers, or about a marker of the whole file. -/
theorem line_notice_cases {permissions : Option Marker} {notice : Notice}
    (h : notice ∈ (readLines commentPrefix ls).filterMap (lineNotice? permissions)) :
    (∃ fault line, notice = .faultyMarker fault line) ∨
      ∃ m ∈ marksFrom commentPrefix 1 ls, propertyNotice? permissions m = some notice := by
  obtain ⟨line, hmem, hnotice⟩ := List.mem_filterMap.1 h
  rw [lineNotice?] at hnotice
  split at hnotice
  · cases hnotice
  · exact .inl ⟨_, _, (Option.some.inj hnotice).symm⟩
  · next m hread =>
      refine .inr ⟨m, ?_, (Option.ite_none_right_eq_some.1 hnotice).2⟩
      rw [← markers_of_read_lines]
      exact List.mem_filterMap.2 ⟨line, hmem, by rw [hread]; rfl⟩

/-- A notice about a marker of the whole file says that it has no meaning, or that it gives the permissions that
count and these cannot be decoded. -/
theorem property_notice_cases {permissions : Option Marker} {notice : Notice}
    (h : propertyNotice? permissions m = some notice) :
    (m.kind ≠ .target ∧ m.kind ≠ .permissions ∧ notice = .ignoredMarker m.kind m.line) ∨
      m.kind = .permissions ∧ permissions = some m ∧
        ∃ argument, notice = .undecodedPermissions argument m.line := by
  rw [propertyNotice?] at h
  split at h
  · cases h
  · next hkind =>
      split at h
      · next argument _ =>
          obtain ⟨⟨hcounts, -⟩, hnotice⟩ := Option.ite_none_right_eq_some.1 h
          exact .inr ⟨hkind, hcounts, argument, (Option.some.inj hnotice).symm⟩
      · cases h
  · next htarget hpermissions => exact .inl ⟨htarget, hpermissions, (Option.some.inj h).symm⟩

/-- Nothing is said about a marker that is overridden. -/
theorem Overridden.not_concerns (hm : m ∈ marksFrom commentPrefix 1 ls)
    (h : Overridden (marksFrom commentPrefix 1 ls) m) {notice : Notice}
    (hnotice : notice ∈ (ofLines commentPrefix path finalNewline ls).2) : ¬ notice.Concerns m := by
  obtain ⟨hfile, hkind, first, hfirst, hne⟩ := h
  rw [notices_of_lines, List.mem_append, List.mem_append, List.mem_append, or_assoc, or_assoc] at hnotice
  refine hnotice.elim (fun hline hconcerns => ?_) (not_concerns_of_section_notice hfile)
  rcases line_notice_cases hline with ⟨fault, line, rfl⟩ | ⟨other, hother, hnotice⟩
  · exact hconcerns
  rcases property_notice_cases hnotice with ⟨htarget, hpermissions, rfl⟩ | ⟨-, hcounts, argument, rfl⟩
  · obtain ⟨hsame, -⟩ := hconcerns
    rcases hkind with hkind | hkind
    · exact htarget (hsame.trans hkind)
    · exact hpermissions (hsame.trans hkind)
  · -- Only the permissions that count are decoded, and these are others.
    obtain ⟨hpermissions, hsame⟩ := hconcerns
    obtain rfl := eq_of_pairwise_lt (pairwise_marks_from 1 ls) hother hm hsame
    rw [hpermissions, hcounts] at hfirst
    exact hne (Option.some.inj hfirst ▸ rfl)

/-- A marker of the whole file that a legible document reproduces is one of its properties. -/
theorem Legible.property_of_reproduces {d : Document} (h : d.Legible) (hfile : m.describesFile = true)
    (hm : d.Reproduces m) : ∃ argument, m.argument = some argument ∧
      .property m.kind argument ∈ d.propertyParts := by
  obtain ⟨k, l, hl, hread⟩ := hm
  obtain ⟨kept, hlines, hreadable, hkept⟩ := h.lines_of_parts
  rw [hlines] at hl
  have hmark : { m with line := (k : Int) + 1 } ∈
      marksFrom d.commentPrefix 1 (Part.linesOf d.commentPrefix kept) :=
    (mem_marks_from_iff 1).2 ⟨k, l, hl, by rwa [Int.add_comm]⟩
  obtain ⟨argument, hargument, hmem⟩ := hreadable.property_of_mem_marks hmark hfile
  have hmem : .property m.kind argument ∈ d.parts := (hkept _ Part.noConfusion).1 hmem
  -- No part of a section is a property.
  obtain ⟨before, after, hbody, hparts⟩ := d.parts_split
  have hnot : .property m.kind argument ∉ d.body := fun hbody =>
    Bool.false_ne_true (is_body_of_mem_body hbody)
  rw [hbody] at hnot
  rw [hparts] at hmem
  simp only [List.mem_append, not_or] at hmem hnot
  exact ⟨argument, hargument, (hmem.resolve_left hnot.1).resolve_right hnot.2⟩

/-- A marker that is overridden is not written again. -/
theorem Overridden.not_reproduces (hline : ∀ l ∈ ls, IsLine l)
    (h : Overridden (marksFrom commentPrefix 1 ls) m) :
    ¬ (ofLines commentPrefix path finalNewline ls).1.Reproduces m := by
  intro hreproduces
  obtain ⟨hfile, -, first, hfirst, hne⟩ := h
  obtain ⟨argument, hargument, hproperty⟩ :=
    (legible_of_lines commentPrefix path finalNewline hline).property_of_reproduces hfile hreproduces
  have hcounts := (mem_property_parts_iff.1 hproperty).2
  rw [hfirst, Option.bind_some] at hcounts
  exact hne (hcounts.trans hargument.symm)

/-! ## No marker is lost silently but those that are overridden -/

/-- The canonical line of a hash or source marker is among the lines of a section that says the same. -/
theorem row_mem_lines {t : Tracked} (hkind : m.kind = .hash ∨ m.kind = .source)
    (hargument : ∃ argument, m.argument = some argument) (hname : t.name = m.scope)
    (hhash : m.kind = .hash → m.argument = some t.accepted)
    (hsource : m.kind = .source → m.argument = t.source) :
    Marker.row commentPrefix m.kind m.scope m.argument ∈ (Part.block t.block).lines commentPrefix := by
  refine List.mem_append_left _ ?_
  rcases hkind with hkind | hkind
  · rw [hkind, hhash hkind, ← hname]
    exact List.mem_cons_of_mem _ List.mem_cons_self
  · obtain ⟨argument, hargument⟩ := hargument
    have hblock : t.block.source = some argument := (hsource hkind).symm.trans hargument
    rw [Block.head, hblock, hkind, hargument, ← hname]
    exact List.mem_cons_of_mem _ (List.mem_cons_of_mem _ List.mem_cons_self)

/-- A marker of a section is written again, or a notice concerns it. -/
theorem section_marker_reproduced_or_told (hline : ∀ l ∈ ls, IsLine l)
    (hm : m ∈ sectionMarks commentPrefix ls) (hkind : m.kind = .hash ∨ m.kind = .source) :
    (ofLines commentPrefix path finalNewline ls).1.Reproduces m ∨
      ∃ notice ∈ (ofLines commentPrefix path finalNewline ls).2, notice.Concerns m := by
  rcases section_marker_cases path finalNewline hm with ⟨t, ht, hname, hhash, hsource⟩ | htold
  · obtain ⟨hne, -, hwell⟩ := prefix_of_mem_marks hline (List.mem_filter.1 hm).1
    have hpart : .block t.block ∈ (ofLines commentPrefix path finalNewline ls).1.parts := by
      refine Part.mem_of_mem_blocks ?_
      rw [blocks_parts]
      exact List.mem_map.2 ⟨t, ht, rfl⟩
    have hargument := hwell.argument_of_kind (by rcases hkind with hkind | hkind <;> simp [hkind])
    exact .inl ((legible_of_lines commentPrefix path finalNewline hline).reproduces hne hwell hpart
      (row_mem_lines hkind hargument hname hhash hsource))
  · exact .inr htold

/-- A marker of the whole file is written again, or a notice concerns it, unless it is overridden. -/
theorem file_marker_reproduced_or_told (hline : ∀ l ∈ ls, IsLine l)
    (hm : m ∈ marksFrom commentPrefix 1 ls) (hfile : m.describesFile = true)
    (h : ¬ Overridden (marksFrom commentPrefix 1 ls) m) :
    (ofLines commentPrefix path finalNewline ls).1.Reproduces m ∨
      ∃ notice ∈ (ofLines commentPrefix path finalNewline ls).2, notice.Concerns m := by
  by_cases hkind : m.kind = .target ∨ m.kind = .permissions
  · obtain ⟨hne, -, hwell⟩ := prefix_of_mem_marks hline hm
    obtain ⟨argument, hargument, hproperty⟩ :=
      property_of_not_overridden path finalNewline hm hfile hkind h
    have hpart : .property m.kind argument ∈ (ofLines commentPrefix path finalNewline ls).1.parts := by
      obtain ⟨before, after, -, hparts⟩ := (ofLines commentPrefix path finalNewline ls).1.parts_split
      rw [hparts]
      exact List.mem_append_right _ (List.mem_append_left _ hproperty)
    have hrow : Marker.row commentPrefix m.kind m.scope m.argument ∈
        (Part.property m.kind argument).lines commentPrefix := by
      have hscope : m.scope = Marker.wholeFile := of_decide_eq_true hfile
      rw [hscope, hargument]
      exact List.mem_singleton.2 rfl
    exact .inl ((legible_of_lines commentPrefix path finalNewline hline).reproduces hne hwell hpart hrow)
  · obtain ⟨htarget, hpermissions⟩ := not_or.1 hkind
    exact .inr ⟨_, ignored_of_describes_file hm hfile htarget hpermissions, rfl, rfl⟩

/-- No marker is lost silently but those that are overridden. A hash, source, target or permissions marker on a
line of any text is written again with the document of the text, or a notice concerns it and shows the name
of its section or its keyword and the number of its line, exactly when no marker of the same kind counts
for the whole file in its place. -/
theorem marker_reproduced_or_told_iff (commentPrefix : Text) (path : Option Path) {t : Text} {k : Nat}
    {l : Text} {m : Marker} (hl : t.lines.1[k]? = some l)
    (hm : Marker.read commentPrefix (k + 1) l = .marker m)
    (hkind : m.kind ∈ [.hash, .source, .target, .permissions]) :
    ((ofText commentPrefix path t).1.Reproduces m ∨
        ∃ notice ∈ (ofText commentPrefix path t).2, notice.Concerns m ∧
          (m.scope.quoted <:+: notice.message ∨
            m.kind.keyword <:+: notice.message ∧ Text.ofInt m.line <:+: notice.message)) ↔
      ¬ Overridden (ofText commentPrefix path t).1.markers m := by
  have hline : ∀ l ∈ t.lines.1, IsLine l := fun _ hl => is_line_of_mem_lines hl
  have hmark : m ∈ marksFrom commentPrefix 1 t.lines.1 :=
    (mem_marks_from_iff 1).2 ⟨k, l, hl, by rwa [Int.add_comm]⟩
  have hmarkers : (ofText commentPrefix path t).1.markers = marksFrom commentPrefix 1 t.lines.1 :=
    markers_of_read_lines _
  rw [hmarkers]
  constructor
  · rintro (hreproduces | ⟨notice, hnotice, hconcerns, -⟩) hoverridden
    · exact hoverridden.not_reproduces hline hreproduces
    · exact hoverridden.not_concerns hmark hnotice hconcerns
  · intro hoverridden
    have htold : (ofText commentPrefix path t).1.Reproduces m ∨
        ∃ notice ∈ (ofText commentPrefix path t).2, notice.Concerns m := by
      by_cases hfile : m.describesFile = true
      · exact file_marker_reproduced_or_told hline hmark hfile hoverridden
      · have hwell := (mem_marks_from hmark).2.1
        refine section_marker_reproduced_or_told hline
          (List.mem_filter.2 ⟨hmark, by simpa using hfile⟩) ?_
        have hnot : m.kind ∉ [.target, .permissions] := fun h => hfile (hwell.describes_file h)
        simp only [List.mem_cons, List.not_mem_nil, or_false] at hkind hnot
        rw [← or_assoc] at hkind
        exact hkind.resolve_right hnot
    exact htold.imp_right fun ⟨notice, hnotice, hconcerns⟩ =>
      ⟨notice, hnotice, hconcerns, hconcerns.mentions⟩

/-- The hash of a section without a beginning and an end is written again or told. -/
theorem lone_hash_told :
    let t : Text := "#... s hash 0\n".toList
    let m : Marker := ⟨1, "s".toList, .hash, some "0".toList⟩
    t.lines.1[0]? = some "#... s hash 0".toList ∧
      Marker.read "#".toList ((0 : Nat) + 1) "#... s hash 0".toList = .marker m ∧
      m.kind ∈ [.hash, .source, .target, .permissions] ∧
      ((ofText "#".toList none t).1.Reproduces m ∨
        ∃ notice ∈ (ofText "#".toList none t).2, notice.Concerns m ∧
          (m.scope.quoted <:+: notice.message ∨
            m.kind.keyword <:+: notice.message ∧ Text.ofInt m.line <:+: notice.message)) := by
  intro t m
  have hl : t.lines.1[0]? = some "#... s hash 0".toList := by decide
  have hm : Marker.read "#".toList ((0 : Nat) + 1) "#... s hash 0".toList = .marker m := by decide
  have hkind : m.kind ∈ [.hash, .source, .target, .permissions] := by decide
  have hscope : m.describesFile = false := by decide
  refine ⟨hl, hm, hkind, (marker_reproduced_or_told_iff "#".toList none hl hm hkind).2 ?_⟩
  exact fun hoverridden => Bool.false_ne_true (hscope.symm.trans hoverridden.1)

/-- A second target of a file with another path is lost, and nothing at all is said about the file. -/
theorem some_target_lost_silently :
    ¬ ∀ (commentPrefix : Text) (path : Option Path) (t : Text) (k : Nat) (l : Text) (m : Marker),
      t.lines.1[k]? = some l → Marker.read commentPrefix (k + 1) l = .marker m →
      m.kind ∈ [.hash, .source, .target, .permissions] →
      (ofText commentPrefix path t).1.Reproduces m ∨ (ofText commentPrefix path t).2 ≠ [] := by
  intro h
  let t : Text := "#... all target a\n#... all target b\n".toList
  let m : Marker := ⟨2, "all".toList, .target, some "b".toList⟩
  have hmarks : marksFrom "#".toList 1 t.lines.1 = [⟨1, "all".toList, .target, some "a".toList⟩, m] := by
    decide
  have hoverridden : Overridden (marksFrom "#".toList 1 t.lines.1) m := by
    rw [hmarks]
    exact ⟨by decide, .inl rfl, _, rfl, by decide⟩
  have hline : ∀ l ∈ t.lines.1, IsLine l := fun _ hl => is_line_of_mem_lines hl
  have hlost : ¬ (ofText "#".toList none t).1.Reproduces m := hoverridden.not_reproduces hline
  have hsilent : (ofText "#".toList none t).2 = [] := by decide +kernel
  exact (h "#".toList none t 1 "#... all target b".toList m (by decide) (by decide) (by decide)).elim hlost
    (fun hne => hne hsilent)

end Document

end TrackedSections
