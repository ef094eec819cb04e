import TrackedSections.Proofs.Document.Numbering
import TrackedSections.Proofs.Marker.Index

/-!
# The tracked sections of a file

`tracks ms` are the sections that the markers `ms` describe: built, sorted and freed from overlaps,
still without content. `Tracked.BuiltFrom` says which markers a section was built from, and
`fits_tracks` that the sections of a file follow each other within it. `sections_of_lines` then
describes all sections of a file.
-/

namespace TrackedSections

/-- The markers among `ms` that say where a section begins and ends, what was accepted for it and where
it comes from. -/
structure Tracked.BuiltFrom (ms : List Marker) (t : Tracked) : Prop where
  start : ∃ m ∈ ms, m.scope = t.name ∧ m.kind = .start ∧ m.line = t.first
  stop : ∃ m ∈ ms, m.scope = t.name ∧ m.kind = .stop ∧ m.line = t.last
  accepted : ∃ m ∈ ms, m.scope = t.name ∧ m.kind = .hash ∧ m.argument = some t.accepted
  source : ∀ source ∈ t.source, ∃ m ∈ ms, m.argument = some source
  forward : t.Forward
  content_eq_nil : t.content = []

namespace Assembly

open MarkerIndex

/-- The sections that some markers describe, before any is dropped for overlapping. -/
def built (ms : List Marker) : List Tracked :=
  (build (ofList ms).validate (ofList ms).validate.sections).1

/-- The sections that some markers describe. -/
def tracks (ms : List Marker) : List Tracked :=
  (dropOverlapping ((built ms).mergeSort fun s t => s.first ≤ t.first)).1

/-- Sections are built name by name. -/
theorem build_fst (index : MarkerIndex) (ns : List Text) :
    (build index ns).1 = ns.filterMap fun name => (Tracked.ofIndex index name).toOption := by
  induction ns with
  | nil => rfl
  | cons name ns ih =>
      rw [build, List.filterMap_cons, ← ih]
      cases Tracked.ofIndex index name <;> rfl

/-- A marker that is found for a name that can be tracked is one of its markers. -/
theorem mem_of_get_validate {ms : List Marker} {name : Text} (hname : name ∈ validNames ms)
    {kind : MarkerKind} {m : Marker} (h : (ofList ms).validate.get? name kind = some m) :
    m ∈ ms ∧ m.scope = name ∧ m.kind = kind := by
  rw [get_validate hname] at h
  obtain ⟨hmem, hscope⟩ := List.mem_filter.1 (List.mem_of_find?_eq_some h)
  exact ⟨hmem, by simpa using hscope, by simpa using List.find?_some h⟩

/-- A section that is built for a name has that name and comes from its markers. -/
theorem built_from_of_index {ms : List Marker} {name : Text} (hname : name ∈ validNames ms)
    {t : Tracked} (h : Tracked.ofIndex (ofList ms).validate name = .ok t) :
    t.name = name ∧ t.BuiltFrom ms := by
  unfold Tracked.ofIndex at h
  split at h
  · next start stop hash hstart hstop hhash =>
      obtain ⟨hstartMem, hstartScope, hstartKind⟩ := mem_of_get_validate hname hstart
      obtain ⟨hstopMem, hstopScope, hstopKind⟩ := mem_of_get_validate hname hstop
      obtain ⟨hhashMem, hhashScope, hhashKind⟩ := mem_of_get_validate hname hhash
      split at h
      · cases h
      · cases h
      · next accepted _ haccepted =>
          split at h
          · cases h
          · next hforward =>
              obtain rfl := Except.ok.inj h
              refine ⟨rfl, ⟨start, hstartMem, hstartScope, hstartKind, rfl⟩,
                ⟨stop, hstopMem, hstopScope, hstopKind, rfl⟩,
                ⟨hash, hhashMem, hhashScope, hhashKind, haccepted⟩, ?_, Int.not_lt.1 hforward, rfl⟩
              intro source hsource
              obtain ⟨m, hm, hargument⟩ := Option.bind_eq_some_iff.1 hsource
              exact ⟨m, (mem_of_get_validate hname hm).1, hargument⟩
  · cases h

/-- A section that is built is named like a section of the index and comes from its markers. -/
theorem mem_built {ms : List Marker} {t : Tracked} (h : t ∈ built ms) :
    t.name ∈ (ofList ms).validate.sections ∧ t.BuiltFrom ms := by
  rw [built, build_fst] at h
  obtain ⟨name, hname, hok⟩ := List.mem_filterMap.1 h
  have hvalid : name ∈ validNames ms := (mem_sections_validate.1 hname).1
  cases hof : Tracked.ofIndex (ofList ms).validate name with
  | error fault => simp [hof, Except.toOption] at hok
  | ok t' =>
      obtain rfl : t' = t := by simpa [hof, Except.toOption] using hok
      obtain ⟨rfl, hbuilt⟩ := built_from_of_index hvalid hof
      exact ⟨hname, hbuilt⟩

/-- The names of what is built are among those it is built for, in the same order. -/
theorem names_build_sublist (index : MarkerIndex) (ns : List Text)
    (h : ∀ name ∈ ns, ∀ t, Tracked.ofIndex index name = .ok t → t.name = name) :
    ((build index ns).1.map (·.name)).Sublist ns := by
  induction ns with
  | nil => exact .slnil
  | cons name ns ih =>
      have hrest := ih fun name' hname' => h name' (List.mem_cons_of_mem _ hname')
      rw [build]
      cases hof : Tracked.ofIndex index name with
      | error fault => exact hrest.cons _
      | ok t =>
          rw [List.map_cons, h name List.mem_cons_self t hof]
          exact hrest.cons_cons _

/-- The sections that are built have different names. -/
theorem nodup_names_built (ms : List Marker) : ((built ms).map (·.name)).Nodup := by
  have hsections := sections_validate ms
  have hsublist : ((built ms).map (·.name)).Sublist (ofList ms).validate.sections := by
    refine names_build_sublist _ _ ?_
    intro name hname t hof
    rw [hsections] at hname
    exact (built_from_of_index (List.mem_filter.1 hname).1 hof).1
  refine hsublist.nodup ?_
  rw [hsections]
  exact ((nodup_names ms).sublist List.filter_sublist).sublist List.filter_sublist

/-- The sections that are built still have different names when they are sorted. -/
theorem nodup_names_sorted (ms : List Marker) :
    (((built ms).mergeSort fun s t => s.first ≤ t.first).map (·.name)).Nodup :=
  (((List.mergeSort_perm _ _).map _).nodup_iff).2 (nodup_names_built ms)

/-- The sections of a file are among those that were built. -/
theorem tracks_subset_built {ms : List Marker} {t : Tracked} (h : t ∈ tracks ms) : t ∈ built ms :=
  List.mem_mergeSort.1 ((drop_overlapping_sublist _).subset h)

/-- The sections of a file come from its markers. -/
theorem built_from_of_mem_tracks {ms : List Marker} {t : Tracked} (h : t ∈ tracks ms) :
    t.BuiltFrom ms :=
  (mem_built (tracks_subset_built h)).2

/-- The sections of a file have different names. -/
theorem nodup_names_tracks (ms : List Marker) : ((tracks ms).map (·.name)).Nodup :=
  (nodup_names_sorted ms).sublist ((drop_overlapping_sublist _).map _)

/-- No section of a file has the name of the whole file. -/
theorem whole_file_not_mem_tracks (ms : List Marker) :
    Marker.wholeFile ∉ (tracks ms).map (·.name) := by
  intro h
  obtain ⟨t, ht, hname⟩ := List.mem_map.1 h
  exact (mem_sections_validate.1 (mem_built (tracks_subset_built ht)).1).2 hname

/-- Markers of the sections of a file, without those of the file itself. -/
def sectionMarks (commentPrefix : Text) (ls : List Text) : List Marker :=
  (marksFrom commentPrefix 1 ls).filter (!·.describesFile)

/-- Markers of sections are told apart by their lines. -/
theorem section_mark_eq {commentPrefix : Text} {ls : List Text} {m m' : Marker}
    (hm : m ∈ sectionMarks commentPrefix ls) (hm' : m' ∈ sectionMarks commentPrefix ls)
    (hline : m.line = m'.line) : m = m' :=
  eq_of_pairwise_lt (pairwise_marks_from 1 ls) (List.mem_filter.1 hm).1 (List.mem_filter.1 hm').1 hline

/-- The sections of a file follow each other, each within the file and with its end after its
beginning. -/
theorem fits_tracks (commentPrefix : Text) (ls : List Text) :
    Fits 1 ls.length (tracks (sectionMarks commentPrefix ls)) := by
  let ms := sectionMarks commentPrefix ls
  have hmark : ∀ m ∈ ms, m ∈ marksFrom commentPrefix 1 ls := fun m hm => (List.mem_filter.1 hm).1
  have hwithin : ∀ t ∈ tracks ms, 1 ≤ t.first ∧ t.last ≤ ls.length := by
    intro t ht
    have hbuilt := built_from_of_mem_tracks ht
    obtain ⟨start, hstart, -, -, hfirst⟩ := hbuilt.start
    obtain ⟨stop, hstop, -, -, hlast⟩ := hbuilt.stop
    have hge := (mem_marks_from (hmark start hstart)).2.2.1
    have hlt := (mem_marks_from (hmark stop hstop)).2.2.2.1
    omega
  have hsorted : ((built ms).mergeSort fun s t => s.first ≤ t.first).Pairwise
      fun s t => s.first ≤ t.first := pairwise_sort_by Tracked.first _
  -- No two markers share a line, so no section ends where another one begins.
  have hapart : ((built ms).mergeSort fun s t => s.first ≤ t.first).Pairwise
      fun s t => s.last ≠ t.first := by
    have hnames : ((built ms).mergeSort fun s t => s.first ≤ t.first).Pairwise
        fun s t => s.name ≠ t.name := List.pairwise_map.1 (nodup_names_sorted ms)
    refine hnames.imp_of_mem fun {s t} hs ht hne heq => hne ?_
    obtain ⟨stop, hstop, hstopScope, -, hlast⟩ := (mem_built (List.mem_mergeSort.1 hs)).2.stop
    obtain ⟨start, hstart, hstartScope, -, hfirst⟩ := (mem_built (List.mem_mergeSort.1 ht)).2.start
    have hsame : stop = start := section_mark_eq hstop hstart (by omega)
    rw [← hstopScope, ← hstartScope, hsame]
  exact ⟨pairwise_drop_overlapping hsorted hapart,
    fun t ht => (built_from_of_mem_tracks ht).forward, hwithin, by omega⟩

end Assembly

namespace Document

open Assembly

variable (commentPrefix : Text) (path : Option Path) (finalNewline : Bool) (ls : List Text)

/-- The content lines of a file are handed out to its tracked sections and those between them. -/
theorem sections_eq_distribute :
    (ofLines commentPrefix path finalNewline ls).1.sections =
      distribute (contentFrom commentPrefix 1 ls)
        (layOut ls.length 1 (tracks (sectionMarks commentPrefix ls))) := by
  rw [← fill_gaps_eq_lay_out (fits_tracks commentPrefix ls)]
  simp only [ofLines, markers_of_read_lines, content_of_read_lines]
  rfl

/-- The sections of a file are its tracked ones and those between them, each with the content lines in
its range. -/
theorem sections_of_lines :
    (ofLines commentPrefix path finalNewline ls).1.sections =
      (layOut ls.length 1 (tracks (sectionMarks commentPrefix ls))).map fun s =>
        (s.append (contentIn s (contentFrom commentPrefix 1 ls))).finalize := by
  rw [sections_eq_distribute,
    distribute_eq_map (tiles_lay_out (fits_tracks commentPrefix ls)) (ascending_content_from 1 ls)]

/-- No section has content before the content lines are handed out. -/
theorem content_eq_nil_of_mem_lay_out {ms : List Marker} {last first : Int} {s : Section}
    (h : s ∈ layOut last first (tracks ms)) : s.content = [] := by
  rcases mem_lay_out h with ⟨t, ht, rfl⟩ | ⟨_, _, rfl⟩
  · exact (built_from_of_mem_tracks ht).content_eq_nil
  · rfl

/-- A tracked section with the content lines in its range and the digest of its content. -/
def fill (content : List Numbered) (t : Tracked) : Tracked :=
  Tracked.finalize { t with content := t.content ++ contentIn (.tracked t) content }

/-- The tracked sections of a file are those that its markers describe, with their content. -/
theorem tracked_of_lines :
    (ofLines commentPrefix path finalNewline ls).1.tracked =
      (tracks (sectionMarks commentPrefix ls)).map (fill (contentFrom commentPrefix 1 ls)) := by
  have hfill : ∀ s : Section,
      ((s.append (contentIn s (contentFrom commentPrefix 1 ls))).finalize).tracked? =
        s.tracked?.map (fill (contentFrom commentPrefix 1 ls)) := by
    intro s
    cases s <;> rfl
  rw [Document.tracked, sections_of_lines, List.filterMap_map, Function.comp_def]
  simp only [hfill]
  rw [← List.map_filterMap, filter_map_tracked_lay_out]

/-- The names of a file's sections are those that its markers describe. -/
theorem names_of_lines :
    (ofLines commentPrefix path finalNewline ls).1.names =
      (tracks (sectionMarks commentPrefix ls)).map (·.name) := by
  rw [names, tracked_of_lines, List.map_map]
  rfl

end Document

end TrackedSections
