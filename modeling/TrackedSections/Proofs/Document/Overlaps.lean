import TrackedSections.Proofs.Document.Tracks
import TrackedSections.Proofs.Marker.Grammar

/-!
# Sections that overlap

Of the sections that the markers of a text describe completely, those that overlap are dropped two by two.
Read `overlapping_dropped_in_pairs` first: the sections that are kept have no line in common, none is dropped
that has no line in common with another one, and those that are dropped are pairs of neighbours that do.
`drop_overlapping_pairs` says what the one pass over the sections drops.
-/

namespace TrackedSections

open Assembly MarkerIndex

/-- The name of a section with the lines of its begin and its end marker. -/
structure Extent where
  name : Text
  first : Int
  last : Int
  deriving DecidableEq, Repr

namespace Extent

/-- The lines of an extent are those from its first to its last. -/
def Covers (e : Extent) (line : Int) : Prop := e.first ≤ line ∧ line ≤ e.last

/-- Two extents meet when they have a line in common. -/
def Meets (e f : Extent) : Prop := ∃ line, e.Covers line ∧ f.Covers line

/-- The extent of a section that the markers `ms` describe completely: its name is left when the sections that
cannot be tracked are dropped, and its end stands after its beginning. -/
structure Complete (ms : List Marker) (e : Extent) : Prop where
  survives : e.name ∈ (ofList ms).validate.sections
  start : ∃ m ∈ ms, m.scope = e.name ∧ m.kind = .start ∧ m.line = e.first
  stop : ∃ m ∈ ms, m.scope = e.name ∧ m.kind = .stop ∧ m.line = e.last
  forward : e.first < e.last

/-- Two complete extents of which the second is the next to begin after the first. -/
structure Neighbours (ms : List Marker) (e f : Extent) : Prop where
  left : e.Complete ms
  right : f.Complete ms
  before : e.first < f.first
  next : ∀ g : Extent, g.Complete ms → g.first ≤ e.first ∨ f.first ≤ g.first

variable {e f : Extent}

/-- Extents that meet do so either way round. -/
theorem Meets.symm (h : e.Meets f) : f.Meets e := by
  obtain ⟨line, he, hf⟩ := h
  exact ⟨line, hf, he⟩

/-- Extents meet that begin before the other one ends. -/
theorem meets_of_lt (hfirst : e.first < f.first) (hlt : f.first < e.last) (hforward : f.first < f.last) :
    e.Meets f :=
  ⟨f.first, ⟨Int.le_of_lt hfirst, Int.le_of_lt hlt⟩, Int.le_refl _, Int.le_of_lt hforward⟩

/-- Extents do not meet if one ends before the other one begins. -/
theorem not_meets_of_lt (h : e.last < f.first) : ¬ e.Meets f := by
  rintro ⟨line, ⟨-, hle⟩, hge, -⟩
  omega

end Extent

/-- The extent of a tracked section. -/
def Tracked.extent (t : Tracked) : Extent := ⟨t.name, t.first, t.last⟩

namespace Assembly

/-! ## What one pass drops -/

/-- The two sections of each pair. -/
def members {α : Type} (pairs : List (α × α)) : List α := pairs.flatMap fun (one, other) => [one, other]

/-- The members of pairs, each under a map, are those of the pairs under it. -/
theorem map_members {α β : Type} (f : α → β) (pairs : List (α × α)) :
    (members pairs).map f = members (pairs.map (Prod.map f f)) := by
  simp [members, List.map_flatMap, List.flatMap_map]

/-- What the pass over some sections drops is pairs of sections next to each other, of which the second begins
before the first ends. -/
theorem drop_overlapping_pairs (ts : List Tracked) :
    ∃ pairs : List (Tracked × Tracked), ((dropOverlapping ts).1 ++ members pairs).Perm ts ∧
      ∀ s t, (s, t) ∈ pairs → [s, t] <:+: ts ∧ t.first < s.last := by
  fun_induction dropOverlapping ts with
  | case1 | case2 s => exact ⟨[], by simp [members], by simp⟩
  | case3 s next rest hlt kept notices heq ih =>
      rw [heq] at ih
      obtain ⟨pairs, hperm, hpairs⟩ := ih
      refine ⟨(s, next) :: pairs, ?_, fun a b hab => ?_⟩
      · have hswap : (kept ++ members ((s, next) :: pairs)).Perm (s :: next :: (kept ++ members pairs)) := by
          simpa [members] using List.perm_append_comm_assoc kept [s, next] (members pairs)
        exact hswap.trans ((hperm.cons next).cons s)
      · rcases List.mem_cons.1 hab with heq | hab
        · obtain ⟨rfl, rfl⟩ := Prod.mk.inj heq
          exact ⟨(List.prefix_append [a, b] rest).isInfix, hlt⟩
        · obtain ⟨hadjacent, hlt⟩ := hpairs a b hab
          exact ⟨hadjacent.trans (List.suffix_append [s, next] rest).isInfix, hlt⟩
  | case4 s next rest hge kept notices heq ih =>
      rw [heq] at ih
      obtain ⟨pairs, hperm, hpairs⟩ := ih
      refine ⟨pairs, hperm.cons s, fun a b hab => ?_⟩
      obtain ⟨hadjacent, hlt⟩ := hpairs a b hab
      exact ⟨hadjacent.trans (List.suffix_cons s (next :: rest)).isInfix, hlt⟩

/-- A section around two others takes only the first of them with it. -/
example :
    let lines (first last : Int) : Tracked := ⟨first, last, "s".toList, "0".toList, none, [], []⟩
    (dropOverlapping [lines 1 9, lines 3 5, lines 6 8]).1 = [lines 6 8] := by
  decide

/-- Of two neighbours in ascending order of a key, no other element comes between. -/
theorem le_or_le_of_neighbours {α : Type} {key : α → Int} {l : List α}
    (h : l.Pairwise fun a b => key a < key b) {a b : α} (hab : [a, b] <:+: l) {c : α} (hc : c ∈ l) :
    key c ≤ key a ∨ key b ≤ key c := by
  obtain ⟨before, after, rfl⟩ := hab
  rw [List.append_assoc, List.pairwise_append] at h
  obtain ⟨-, hlater, hearlier⟩ := h
  have hb : ∀ c ∈ after, key b < key c := fun c hc =>
    List.rel_of_pairwise_cons hlater.tail hc
  simp only [List.mem_append, List.mem_cons, List.not_mem_nil, or_false] at hc
  rcases hc with (hc | rfl | rfl) | hc
  · exact .inl (Int.le_of_lt (hearlier c hc a List.mem_cons_self))
  · exact .inl (Int.le_refl _)
  · exact .inr (Int.le_refl _)
  · exact .inr (Int.le_of_lt (hb c hc))

/-! ## The complete sections -/

/-- The sections that some markers describe, in the order of their first lines. -/
def inOrder (ms : List Marker) : List Tracked := (built ms).mergeSort fun s t => s.first ≤ t.first

/-- A name is left among those of the sections exactly if it is not that of the whole file, no two of its markers
are of one kind, and it has a begin, an end and a hash marker. -/
theorem mem_sections_iff {ms : List Marker} {name : Text} :
    name ∈ (ofList ms).validate.sections ↔
      name ≠ Marker.wholeFile ∧ ((own ms name).map (·.kind)).Nodup ∧
        ∀ kind ∈ [MarkerKind.start, .stop, .hash], ∃ m ∈ own ms name, m.kind = kind := by
  have hrequired : (∀ kind ∈ [MarkerKind.start, .stop, .hash], ∃ m ∈ own ms name, m.kind = kind) ↔
      .start ∈ (own ms name).map (·.kind) ∧ .stop ∈ (own ms name).map (·.kind) ∧
        .hash ∈ (own ms name).map (·.kind) := by
    simp
  rw [hrequired, mem_sections_validate, validNames, List.mem_filter, Option.isNone_iff_eq_none]
  constructor
  · rintro ⟨⟨-, hnone⟩, hne⟩
    rw [groupDefect?, if_neg hne, defect_eq_none] at hnone
    exact ⟨hne, hnone⟩
  · rintro ⟨hne, hkinds⟩
    refine ⟨⟨?_, ?_⟩, hne⟩
    · obtain ⟨m, hm, -⟩ := List.mem_map.1 hkinds.2.1
      obtain ⟨hmem, hscope⟩ := List.mem_filter.1 hm
      exact mem_names.2 ⟨m, hmem, of_decide_eq_true hscope⟩
    · rw [groupDefect?, if_neg hne, defect_eq_none]
      exact hkinds

/-- A marker of a section that can be tracked is the only one of its kind. -/
theorem get_of_survives {ms : List Marker} {name : Text} (h : name ∈ (ofList ms).validate.sections)
    {m : Marker} (hm : m ∈ ms) (hscope : m.scope = name) {kind : MarkerKind} (hkind : m.kind = kind) :
    (ofList ms).validate.get? name kind = some m := by
  subst hkind
  rw [get_validate (mem_sections_validate.1 h).1]
  exact find_of_nodup_kinds (mem_sections_iff.1 h).2.1 (List.mem_filter.2 ⟨hm, by simpa using hscope⟩)

variable {commentPrefix : Text} {ls : List Text} {e f : Extent}

/-- A complete section is built. -/
theorem exists_built_of_complete (h : e.Complete (sectionMarks commentPrefix ls)) :
    ∃ t ∈ built (sectionMarks commentPrefix ls), t.extent = e := by
  let ms := sectionMarks commentPrefix ls
  obtain ⟨hsurvives, ⟨start, hstart, hstartScope, hstartKind, hfirst⟩,
    ⟨stop, hstop, hstopScope, hstopKind, hlast⟩, hforward⟩ := h
  obtain ⟨hash, hhash, hhashKind⟩ := (mem_sections_iff.1 hsurvives).2.2 .hash (by simp)
  obtain ⟨hhash, hhashScope⟩ := List.mem_filter.1 hhash
  have hhashScope : hash.scope = e.name := of_decide_eq_true hhashScope
  -- The hash is a word, so that it is not empty.
  have hwell := (mem_marks_from (List.mem_filter.1 hhash).1).2.1
  obtain ⟨accepted, haccepted⟩ := hwell.argument_of_kind (by simp [hhashKind])
  have hne : accepted ≠ [] := (hwell.argument_word accepted haccepted).1
  have hgetStart : (ofList ms).validate.get? e.name .start = some start :=
    get_of_survives hsurvives hstart hstartScope hstartKind
  have hgetStop : (ofList ms).validate.get? e.name .stop = some stop :=
    get_of_survives hsurvives hstop hstopScope hstopKind
  have hgetHash : (ofList ms).validate.get? e.name .hash = some hash :=
    get_of_survives hsurvives hhash hhashScope hhashKind
  have hnot : ¬ stop.line < start.line := by omega
  cases accepted with
  | nil => exact absurd rfl hne
  | cons c word =>
      let t : Tracked := ⟨start.line, stop.line, e.name, c :: word,
        ((ofList ms).validate.get? e.name .source).bind (·.argument), [], []⟩
      have hok : Tracked.ofIndex (ofList ms).validate e.name = .ok t := by
        simp only [Tracked.ofIndex, hgetStart, hgetStop, hgetHash, haccepted, if_neg hnot, t]
      refine ⟨t, ?_, by simp [Tracked.extent, t, hfirst, hlast]⟩
      rw [built, build_fst]
      exact List.mem_filterMap.2 ⟨e.name, hsurvives, by rw [hok]; rfl⟩

/-- A section that is built is complete. -/
theorem complete_of_mem_built {t : Tracked} (h : t ∈ built (sectionMarks commentPrefix ls)) :
    t.extent.Complete (sectionMarks commentPrefix ls) := by
  obtain ⟨hsurvives, hbuilt⟩ := mem_built h
  refine ⟨hsurvives, hbuilt.start, hbuilt.stop, ?_⟩
  obtain ⟨start, hstart, -, hstartKind, hfirst⟩ := hbuilt.start
  obtain ⟨stop, hstop, -, hstopKind, hlast⟩ := hbuilt.stop
  have hforward : t.first ≤ t.last := hbuilt.forward
  have hne : t.first ≠ t.last := by
    intro heq
    have hsame : start = stop := section_mark_eq hstart hstop (by omega)
    rw [hsame, hstopKind] at hstartKind
    cases hstartKind
  show t.first < t.last
  omega

/-- The complete sections of a text are those that are built for it. -/
theorem complete_iff_mem_in_order : e.Complete (sectionMarks commentPrefix ls) ↔
    e ∈ (inOrder (sectionMarks commentPrefix ls)).map (·.extent) := by
  simp only [List.mem_map, inOrder, List.mem_mergeSort]
  constructor
  · exact exists_built_of_complete
  · rintro ⟨t, ht, rfl⟩
    exact complete_of_mem_built ht

/-- The sections of a text begin on different lines. -/
theorem pairwise_in_order (commentPrefix : Text) (ls : List Text) :
    (inOrder (sectionMarks commentPrefix ls)).Pairwise fun s t => s.first < t.first := by
  let ms := sectionMarks commentPrefix ls
  have hnames : (inOrder ms).Pairwise fun s t => s.name ≠ t.name :=
    List.pairwise_map.1 (nodup_names_sorted ms)
  refine ((pairwise_sort_by Tracked.first (built ms)).and hnames).imp_of_mem ?_
  rintro s t hs ht ⟨hle, hne⟩
  obtain ⟨start, hstart, hscope, -, hline⟩ := (mem_built (List.mem_mergeSort.1 hs)).2.start
  obtain ⟨other, hother, hotherScope, -, hotherLine⟩ := (mem_built (List.mem_mergeSort.1 ht)).2.start
  have hlines : s.first ≠ t.first := by
    intro heq
    have hsame : start = other := section_mark_eq hstart hother (by omega)
    exact hne (by rw [← hscope, ← hotherScope, hsame])
  omega

/-- The complete sections of a text are those that are kept and the members of pairs, each once. The two of a pair
are neighbours that meet. -/
theorem exists_dropped_pairs (commentPrefix : Text) (ls : List Text) :
    let ms := sectionMarks commentPrefix ls
    ∃ pairs : List (Extent × Extent), ((tracks ms).map (·.extent) ++ members pairs).Nodup ∧
      (∀ e : Extent, e.Complete ms ↔ e ∈ (tracks ms).map (·.extent) ++ members pairs) ∧
      ∀ e f, (e, f) ∈ pairs → e.Neighbours ms f ∧ e.Meets f := by
  intro ms
  have hsorted : (inOrder ms).Pairwise fun s t => s.first < t.first := pairwise_in_order commentPrefix ls
  obtain ⟨pairs, hperm, hpairs⟩ := drop_overlapping_pairs (inOrder ms)
  have hextents : ((tracks ms).map (·.extent) ++
      members (pairs.map (Prod.map Tracked.extent Tracked.extent))).Perm ((inOrder ms).map (·.extent)) := by
    rw [← map_members, ← List.map_append]
    exact hperm.map _
  refine ⟨_, hextents.nodup_iff.2 ?_, fun e => ?_, fun e f hmem => ?_⟩
  · refine List.pairwise_map.2 (hsorted.imp fun {s t} hlt heq => ?_)
    have hfirst : s.first = t.first := congrArg Extent.first heq
    omega
  · rw [hextents.mem_iff]
    exact complete_iff_mem_in_order
  · obtain ⟨⟨s, t⟩, hst, heq⟩ := List.mem_map.1 hmem
    obtain ⟨rfl, rfl⟩ := Prod.mk.inj heq
    obtain ⟨hadjacent, hoverlap⟩ := hpairs s t hst
    have hs : s.extent.Complete ms := complete_iff_mem_in_order.2 <|
      List.mem_map.2 ⟨s, hadjacent.subset List.mem_cons_self, rfl⟩
    have ht : t.extent.Complete ms := complete_iff_mem_in_order.2 <|
      List.mem_map.2 ⟨t, hadjacent.subset (List.mem_cons_of_mem _ List.mem_cons_self), rfl⟩
    have hlt : s.first < t.first :=
      List.rel_of_pairwise_cons (hsorted.sublist hadjacent.sublist) List.mem_cons_self
    refine ⟨⟨hs, ht, hlt, fun g hg => ?_⟩, Extent.meets_of_lt hlt hoverlap ht.forward⟩
    obtain ⟨u, hu, rfl⟩ := List.mem_map.1 (complete_iff_mem_in_order.1 hg)
    exact le_or_le_of_neighbours hsorted hadjacent hu

end Assembly

namespace Document

/-- The extents of the tracked sections of a text are those that its markers describe. -/
theorem extents_of_text (commentPrefix : Text) (path : Option Path) (t : Text) :
    (ofText commentPrefix path t).1.tracked.map (·.extent) =
      (tracks (sectionMarks commentPrefix t.lines.1)).map (·.extent) := by
  have hdoc : (ofText commentPrefix path t).1 =
      (ofLines commentPrefix path t.lines.2 t.lines.1).1 := rfl
  rw [hdoc, tracked_of_lines, List.map_map]
  rfl

/-- Overlapping sections are dropped in pairs, and no others. The tracked sections of a text are sections that its
markers describe completely, with the lines of their begin and end markers, and no two of them have a line in
common. A complete section that has no line in common with another one is tracked. The complete sections that
are not tracked are the members of pairs, each of one pair only: two neighbours in the order of their first
lines that have a line in common. -/
theorem overlapping_dropped_in_pairs (commentPrefix : Text) (path : Option Path) (t : Text) :
    let ms := sectionMarks commentPrefix t.lines.1
    let kept := (ofText commentPrefix path t).1.tracked.map (·.extent)
    (∀ e ∈ kept, e.Complete ms) ∧
      kept.Pairwise (fun e f => ¬ e.Meets f) ∧
      (∀ e : Extent, e.Complete ms →
        (∀ f : Extent, f.Complete ms → f ≠ e → ¬ e.Meets f) → e ∈ kept) ∧
      ∃ pairs : List (Extent × Extent), (members pairs).Nodup ∧
        (∀ e, e ∈ members pairs ↔ e.Complete ms ∧ e ∉ kept) ∧
        ∀ e f, (e, f) ∈ pairs → e.Neighbours ms f ∧ e.Meets f := by
  intro ms kept
  have hkept : kept = (tracks ms).map (·.extent) := extents_of_text commentPrefix path t
  obtain ⟨pairs, hnodup, hcomplete, hpairs⟩ := exists_dropped_pairs commentPrefix t.lines.1
  obtain ⟨-, hmembers, hdisjoint⟩ := List.nodup_append.1 hnodup
  rw [hkept]
  refine ⟨fun e he => (hcomplete e).2 (List.mem_append_left _ he), ?_, fun e he hapart => ?_,
    pairs, hmembers, fun e => ⟨fun he => ?_, ?_⟩, hpairs⟩
  · exact List.pairwise_map.2 <|
      (fits_tracks commentPrefix t.lines.1).before.imp fun h => Extent.not_meets_of_lt h
  · refine (List.mem_append.1 ((hcomplete e).1 he)).resolve_right fun hmem => ?_
    -- The other one of its pair has a line in common with it.
    obtain ⟨⟨one, other⟩, hpair, hmem⟩ := List.mem_flatMap.1 hmem
    obtain ⟨hneighbours, hmeets⟩ := hpairs one other hpair
    have hne : other ≠ one := fun heq => by
      have hlt := hneighbours.before
      rw [heq] at hlt
      exact Int.lt_irrefl _ hlt
    simp only [List.mem_cons, List.not_mem_nil, or_false] at hmem
    rcases hmem with rfl | rfl
    · exact hapart other hneighbours.right hne hmeets
    · exact hapart one hneighbours.left hne.symm hmeets.symm
  · exact ⟨(hcomplete e).2 (List.mem_append_right _ he), fun hmem => hdisjoint e hmem e he rfl⟩
  · rintro ⟨he, hnot⟩
    exact (List.mem_append.1 ((hcomplete e).1 he)).resolve_left hnot

end Document

end TrackedSections
