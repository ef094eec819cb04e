import Mathlib.Data.List.TakeWhile
import TrackedSections.Document.Assembly

/-!
# Sections side by side

`Tiles first last sections` says that the ranges of the sections cover the lines from `first` to
`last` one after another. Read `tiles_fill_gaps` first: tracked sections that follow each other are
completed to a tiling. In a tiling the one pass of `distribute` gives each section all content
lines in its range (`distribute_eq_map`), and no line is lost or given out twice
(`flat_map_content_in`).
-/

namespace TrackedSections

open Assembly

/-- Elements in strictly ascending order of a key are told apart by it. -/
theorem eq_of_pairwise_lt {α : Type} {key : α → Int} {l : List α}
    (h : l.Pairwise fun a b => key a < key b) {a b : α} (ha : a ∈ l) (hb : b ∈ l)
    (heq : key a = key b) : a = b := by
  induction l with
  | nil => cases ha
  | cons c l ih =>
      obtain ⟨hfirst, hrest⟩ := List.pairwise_cons.1 h
      rcases List.mem_cons.1 ha with rfl | ha' <;> rcases List.mem_cons.1 hb with rfl | hb'
      · rfl
      · exact absurd heq (Int.ne_of_lt (hfirst b hb'))
      · exact absurd heq.symm (Int.ne_of_lt (hfirst a ha'))
      · exact ih hrest ha' hb'

/-- Sorting by a key puts elements in ascending order of it. -/
theorem pairwise_sort_by {α : Type} (key : α → Int) (l : List α) :
    (l.mergeSort fun a b => key a ≤ key b).Pairwise fun a b => key a ≤ key b := by
  have hsorted : (l.mergeSort fun a b => key a ≤ key b).Pairwise fun a b =>
      decide (key a ≤ key b) = true := by
    refine List.pairwise_mergeSort (fun a b c hab hbc => ?_) (fun a b => ?_) l
    · simp only [decide_eq_true_eq] at hab hbc ⊢
      exact Int.le_trans hab hbc
    · simpa using Int.le_total (key a) (key b)
  exact hsorted.imp of_decide_eq_true

/-- The ranges of some sections cover the lines from `first` to `last` in order, and none is empty. -/
def Tiles : Int → Int → List Section → Prop
  | first, last, [] => first = last + 1
  | first, last, s :: rest => s.first = first ∧ s.first ≤ s.last ∧ Tiles (s.last + 1) last rest

/-- One tracked section ends before another one begins. -/
def Tracked.Before (s t : Tracked) : Prop := s.last < t.first

/-- A range that starts no later than it ends. -/
def Tracked.Forward (s : Tracked) : Prop := s.first ≤ s.last

namespace Section

/-- A section contains the lines from its first to its last. -/
theorem contains_eq_true {s : Section} {line : Int} :
    s.contains line = true ↔ s.first ≤ line ∧ line ≤ s.last := by
  simp [Section.contains]

/-- A section does not contain the lines before its first and after its last. -/
theorem contains_eq_false {s : Section} {line : Int} :
    s.contains line = false ↔ line < s.first ∨ s.last < line := by
  rw [← Bool.not_eq_true, contains_eq_true]
  omega

@[simp] theorem first_append (s : Section) (t : Text) : (s.append t).first = s.first := by
  cases s <;> rfl

@[simp] theorem last_append (s : Section) (t : Text) : (s.append t).last = s.last := by
  cases s <;> rfl

@[simp] theorem content_append (s : Section) (t : Text) :
    (s.append t).content = s.content ++ t := by
  cases s <;> rfl

@[simp] theorem first_finalize (s : Section) : s.finalize.first = s.first := by
  cases s <;> rfl

@[simp] theorem last_finalize (s : Section) : s.finalize.last = s.last := by
  cases s <;> rfl

@[simp] theorem content_finalize (s : Section) : s.finalize.content = s.content := by
  cases s <;> rfl

end Section

namespace Tiles

/-- A tiling starts at most one line after its end. -/
theorem first_le {first last : Int} {sections : List Section} (h : Tiles first last sections) :
    first ≤ last + 1 := by
  induction sections generalizing first with
  | nil => exact Int.le_of_eq h
  | cons s rest ih =>
      obtain ⟨hfirst, hforward, hrest⟩ := h
      have := ih hrest
      omega

/-- Each section of a tiling lies within it. -/
theorem mem_range {first last : Int} {sections : List Section} (h : Tiles first last sections)
    {s : Section} (hs : s ∈ sections) : first ≤ s.first ∧ s.first ≤ s.last ∧ s.last ≤ last := by
  induction sections generalizing first with
  | nil => cases hs
  | cons t rest ih =>
      obtain ⟨hfirst, hforward, hrest⟩ := h
      have := hrest.first_le
      rcases List.mem_cons.1 hs with rfl | hs
      · omega
      · have := ih hrest hs
        omega

/-- The sections of a tiling follow each other. -/
theorem pairwise {first last : Int} {sections : List Section} (h : Tiles first last sections) :
    sections.Pairwise fun s t => s.last < t.first := by
  induction sections generalizing first with
  | nil => exact .nil
  | cons s rest ih =>
      obtain ⟨-, -, hrest⟩ := h
      refine List.pairwise_cons.2 ⟨fun t ht => ?_, ih hrest⟩
      have := (hrest.mem_range ht).1
      omega

/-- A tiling is sorted by first lines, strictly. -/
theorem pairwise_first {first last : Int} {sections : List Section}
    (h : Tiles first last sections) : sections.Pairwise fun s t => s.first < t.first := by
  refine List.Pairwise.imp_of_mem ?_ h.pairwise
  intro s t hs _ hst
  have := (h.mem_range hs).2.1
  omega

/-- No two sections of a tiling start on the same line. -/
theorem eq_of_first_eq {first last : Int} {sections : List Section}
    (h : Tiles first last sections) {s t : Section} (hs : s ∈ sections) (ht : t ∈ sections)
    (heq : s.first = t.first) : s = t :=
  eq_of_pairwise_lt h.pairwise_first hs ht heq

/-- Only the ranges of sections decide whether they are a tiling. -/
theorem map {first last : Int} {sections : List Section} (h : Tiles first last sections)
    {f : Section → Section} (hfirst : ∀ s, (f s).first = s.first)
    (hlast : ∀ s, (f s).last = s.last) : Tiles first last (sections.map f) := by
  induction sections generalizing first with
  | nil => exact h
  | cons s rest ih =>
      obtain ⟨hs, hforward, hrest⟩ := h
      refine ⟨(hfirst s).trans hs, ?_, ?_⟩
      · rw [hfirst, hlast]
        exact hforward
      · rw [hlast]
        exact ih hrest

end Tiles

namespace Assembly

/-! ## Dropping overlapping sections -/

/-- The sections that are kept are some of those that were built. -/
theorem drop_overlapping_sublist (ts : List Tracked) : (dropOverlapping ts).1.Sublist ts := by
  fun_induction dropOverlapping ts with
  | case1 => exact List.Sublist.refl _
  | case2 s => exact List.Sublist.refl _
  | case3 s next rest hlt kept notices heq ih =>
      rw [heq] at ih
      exact (ih.cons _).cons _
  | case4 s next rest hlt kept notices heq ih =>
      rw [heq] at ih
      exact ih.cons_cons _

/-- Sections in the order of their first lines of which none ends where another begins: those that are kept
follow each other. -/
theorem pairwise_drop_overlapping {ts : List Tracked}
    (hsorted : ts.Pairwise fun s t => s.first ≤ t.first)
    (hapart : ts.Pairwise fun s t => s.last ≠ t.first) :
    (dropOverlapping ts).1.Pairwise Tracked.Before := by
  fun_induction dropOverlapping ts with
  | case1 => exact .nil
  | case2 s => exact List.pairwise_singleton _ _
  | case3 s next rest hlt kept notices heq ih =>
      rw [heq] at ih
      exact ih hsorted.tail.tail hapart.tail.tail
  | case4 s next rest hge kept notices heq ih =>
      rw [heq] at ih
      have hkept : kept.Sublist (next :: rest) := by
        simpa [heq] using drop_overlapping_sublist (next :: rest)
      refine List.pairwise_cons.2 ⟨fun t ht => ?_, ih hsorted.tail hapart.tail⟩
      have hmem := hkept.subset ht
      -- The next section begins after this one ends, and no later one begins before that.
      have hle : next.first ≤ t.first := by
        rcases List.mem_cons.1 hmem with rfl | hmem
        · exact Int.le_refl _
        · exact List.rel_of_pairwise_cons hsorted.tail hmem
      have hne : s.last ≠ t.first := List.rel_of_pairwise_cons hapart hmem
      simp only [Tracked.Before]
      omega

/-- Sections that follow each other are all kept. -/
theorem drop_overlapping_eq_self {ts : List Tracked} (h : ts.Pairwise Tracked.Before) :
    (dropOverlapping ts).1 = ts := by
  fun_induction dropOverlapping ts with
  | case1 => rfl
  | case2 s => rfl
  | case3 s next rest hlt kept notices heq ih =>
      have hbefore : s.last < next.first := List.rel_of_pairwise_cons h List.mem_cons_self
      omega
  | case4 s next rest hge kept notices heq ih =>
      rw [heq] at ih
      exact congrArg (s :: ·) (ih h.tail)

/-! ## Filling the gaps -/

/-- The plain section of the lines from `first` to `last`, if there are any. -/
def plainOf (first last : Int) : List Section :=
  if first ≤ last then [.plain ⟨first, last, []⟩] else []

/-- The tracked sections with the plain ones between them, made in the order of the lines. -/
def layOut (lastLine cursor : Int) : List Tracked → List Section
  | [] => plainOf cursor lastLine
  | s :: rest => plainOf cursor (s.first - 1) ++ .tracked s :: layOut lastLine (s.last + 1) rest

/-- Tracked sections that follow each other between the lines `first` and `last`. -/
structure Fits (first last : Int) (ts : List Tracked) : Prop where
  before : ts.Pairwise Tracked.Before
  forward : ∀ t ∈ ts, t.Forward
  within : ∀ t ∈ ts, first ≤ t.first ∧ t.last ≤ last
  nonempty : first ≤ last + 1

/-- What comes after the first of some sections fits after its last line. -/
theorem Fits.tail {first last : Int} {t : Tracked} {ts : List Tracked}
    (h : Fits first last (t :: ts)) : Fits (t.last + 1) last ts where
  before := h.before.tail
  forward u hu := h.forward u (List.mem_cons_of_mem _ hu)
  within u hu := by
    have hbefore : t.last < u.first := List.rel_of_pairwise_cons h.before hu
    exact ⟨hbefore, (h.within u (List.mem_cons_of_mem _ hu)).2⟩
  nonempty := by
    have := (h.within t List.mem_cons_self).2
    omega

/-- A section in front of others that fit after it. -/
theorem Fits.cons {first last : Int} {t : Tracked} {ts : List Tracked} (hfirst : first ≤ t.first)
    (hforward : t.Forward) (h : Fits (t.last + 1) last ts) : Fits first last (t :: ts) where
  before := List.pairwise_cons.2 ⟨fun u hu => (h.within u hu).1, h.before⟩
  forward := List.forall_mem_cons.2 ⟨hforward, h.forward⟩
  within := by
    have hend := h.nonempty
    simp only [Tracked.Forward] at hforward
    refine List.forall_mem_cons.2 ⟨⟨hfirst, by omega⟩, ?_⟩
    intro u hu
    have hwithin := h.within u hu
    exact ⟨by omega, hwithin.2⟩
  nonempty := by
    have hend := h.nonempty
    simp only [Tracked.Forward] at hforward
    omega

/-- A plain section in front completes a tiling. -/
theorem tiles_plain_of_append {first next last : Int} {sections : List Section}
    (hle : first ≤ next) (h : Tiles next last sections) :
    Tiles first last (plainOf first (next - 1) ++ sections) := by
  unfold plainOf
  split
  · next hgap =>
      refine ⟨rfl, hgap, ?_⟩
      simpa [Section.last] using h
  · next hnone =>
      obtain rfl : first = next := by omega
      exact h

/-- Sections that fit are completed to a tiling. -/
theorem tiles_lay_out {first last : Int} {ts : List Tracked} (h : Fits first last ts) :
    Tiles first last (layOut last first ts) := by
  induction ts generalizing first with
  | nil =>
      have hend : Tiles (last + 1) last [] := rfl
      simpa [layOut] using tiles_plain_of_append h.nonempty hend
  | cons t ts ih =>
      have hwithin := h.within t List.mem_cons_self
      exact tiles_plain_of_append hwithin.1 ⟨rfl, h.forward t List.mem_cons_self, ih h.tail⟩

/-- The gap before a section is the plain section of the lines up to it. -/
theorem gap_eq_plain_of (cursor first : Int) :
    (if cursor < first then [Section.plain ⟨cursor, first - 1, []⟩] else []) =
      plainOf cursor (first - 1) := by
  simp only [plainOf, Int.le_sub_one_iff]

/-- The sections are those of the gaps and the tracked ones. -/
theorem lay_out_perm (last first : Int) (ts : List Tracked) :
    (gaps last first ts ++ ts.map Section.tracked).Perm (layOut last first ts) := by
  induction ts generalizing first with
  | nil => simp [gaps, layOut, plainOf]
  | cons t ts ih =>
      rw [gaps, layOut, List.map_cons, List.append_assoc, gap_eq_plain_of]
      exact (List.perm_middle.trans ((ih (t.last + 1)).cons _)).append_left _

/-- Sorting puts the gaps between the sections where they belong. -/
theorem fill_gaps_eq_lay_out {last : Int} {ts : List Tracked} (h : Fits 1 last ts) :
    fillGaps last ts = layOut last 1 ts := by
  have htiles := tiles_lay_out h
  have hperm : (fillGaps last ts).Perm (layOut last 1 ts) :=
    (List.mergeSort_perm _ _).trans (lay_out_perm last 1 ts)
  have hunique : ∀ s t, s ∈ fillGaps last ts → t ∈ layOut last 1 ts →
      s.first ≤ t.first → t.first ≤ s.first → s = t := fun s t hs ht hst hts =>
    htiles.eq_of_first_eq (hperm.subset hs) ht (Int.le_antisymm hst hts)
  refine List.Perm.eq_of_pairwise hunique ?_ (htiles.pairwise_first.imp Int.le_of_lt) hperm
  exact pairwise_sort_by Section.first _

/-- Tracked sections that follow each other are completed to a tiling of the lines. -/
theorem tiles_fill_gaps {last : Int} {ts : List Tracked} (h : Fits 1 last ts) :
    Tiles 1 last (fillGaps last ts) := by
  rw [fill_gaps_eq_lay_out h]
  exact tiles_lay_out h

/-- A section that was laid out is a tracked one or plain and still without content. -/
theorem mem_lay_out {last first : Int} {ts : List Tracked} {s : Section}
    (h : s ∈ layOut last first ts) :
    (∃ t ∈ ts, s = .tracked t) ∨ ∃ first last, s = .plain ⟨first, last, []⟩ := by
  have hplain : ∀ {first last : Int}, s ∈ plainOf first last →
      ∃ first last, s = .plain ⟨first, last, []⟩ := by
    intro first last hs
    unfold plainOf at hs
    split at hs
    · exact ⟨first, last, List.mem_singleton.1 hs⟩
    · cases hs
  induction ts generalizing first with
  | nil => exact .inr (hplain h)
  | cons t ts ih =>
      rcases List.mem_append.1 h with h | h
      · exact .inr (hplain h)
      · rcases List.mem_cons.1 h with rfl | h
        · exact .inl ⟨t, List.mem_cons_self, rfl⟩
        · exact (ih h).imp_left fun ⟨u, hu, hs⟩ => ⟨u, List.mem_cons_of_mem _ hu, hs⟩

/-- The tracked sections among those that were laid out. -/
theorem filter_map_tracked_lay_out (last first : Int) (ts : List Tracked) :
    (layOut last first ts).filterMap (·.tracked?) = ts := by
  induction ts generalizing first with
  | nil => unfold layOut plainOf; split <;> rfl
  | cons t ts ih =>
      have hplain : (plainOf first (t.first - 1)).filterMap (·.tracked?) = [] := by
        unfold plainOf
        split <;> rfl
      rw [layOut, List.filterMap_append, hplain, List.nil_append,
        List.filterMap_cons, ih]
      rfl

/-! ## Handing out content lines -/

/-- Content lines in the order of their numbers. -/
def Ascending (content : List Numbered) : Prop := content.Pairwise fun a b => a.1 < b.1

/-- The lines of a section are found part by part. -/
theorem content_in_append {s : Section} {before after : List Numbered} :
    contentIn s (before ++ after) = contentIn s before ++ contentIn s after := by
  simp [contentIn]

/-- A section has no lines outside its range. -/
theorem content_in_eq_nil {s : Section} {content : List Numbered}
    (h : ∀ a ∈ content, a.1 < s.first ∨ s.last < a.1) : contentIn s content = [] := by
  have hnone : ∀ a ∈ content, ¬ s.contains a.1 = true := by
    intro a ha
    rw [Bool.not_eq_true, Section.contains_eq_false]
    exact h a ha
  rw [contentIn, List.filter_eq_nil_iff.2 hnone, List.flatMap_nil]

/-- All lines in the range of a section are its lines. -/
theorem content_in_eq_all {s : Section} {content : List Numbered}
    (h : ∀ a ∈ content, s.first ≤ a.1 ∧ a.1 ≤ s.last) :
    contentIn s content = content.flatMap fun (_, line) => Text.closeLine line := by
  rw [contentIn, List.filter_eq_self.2 fun a ha => Section.contains_eq_true.2 (h a ha)]

/-- The lines that are left after the end of a section lie after it. -/
theorem lt_of_mem_drop_while {content : List Numbered} (h : Ascending content) {last : Int}
    {a : Numbered} (ha : a ∈ content.dropWhile fun (n, _) => n ≤ last) : last < a.1 := by
  induction content with
  | nil => cases ha
  | cons b content ih =>
      by_cases hb : b.1 ≤ last
      · rw [List.dropWhile_cons_of_pos (by simpa using hb)] at ha
        exact ih h.tail ha
      · rw [List.dropWhile_cons_of_neg (by simpa using hb)] at ha
        rcases List.mem_cons.1 ha with rfl | ha
        · omega
        · have hlt : b.1 < a.1 := List.rel_of_pairwise_cons h ha
          omega

/-- The lines that a section takes lie up to its end. -/
theorem le_of_mem_take_while {content : List Numbered} {last : Int} {a : Numbered}
    (ha : a ∈ content.takeWhile fun (n, _) => n ≤ last) : a.1 ≤ last := by
  simpa using List.mem_takeWhile_imp ha

/-- The pass over the content lines stops at the end of a section: what it takes up to there holds
the lines of the section, and what it leaves those of all sections after it. -/
theorem content_in_split {s : Section} {last : Int} {rest : List Section}
    (hrest : Tiles (s.last + 1) last rest) {content : List Numbered} (hcontent : Ascending content) :
    contentIn s (content.takeWhile fun (n, _) => n ≤ s.last) = contentIn s content ∧
      ∀ t ∈ rest, contentIn t (content.dropWhile fun (n, _) => n ≤ s.last) =
        contentIn t content := by
  let own := content.takeWhile fun (n, _) => n ≤ s.last
  let later := content.dropWhile fun (n, _) => n ≤ s.last
  have hsplit : content = own ++ later := List.takeWhile_append_dropWhile.symm
  constructor
  · have hnone : contentIn s later = [] := by
      apply content_in_eq_nil
      intro a ha
      exact .inr (lt_of_mem_drop_while hcontent ha)
    show contentIn s own = _
    rw [hsplit, content_in_append, hnone, List.append_nil]
  · intro t ht
    have hstart := (hrest.mem_range ht).1
    have hnone : contentIn t own = [] := by
      apply content_in_eq_nil
      intro a ha
      have := le_of_mem_take_while ha
      omega
    show contentIn t later = _
    rw [hsplit, content_in_append, hnone, List.nil_append]

/-- In a tiling the pass over the content lines gives each section those in its range. -/
theorem distribute_eq_map {first last : Int} {sections : List Section}
    (htiles : Tiles first last sections) {content : List Numbered} (hcontent : Ascending content) :
    distribute content sections =
      sections.map fun s => (s.append (contentIn s content)).finalize := by
  induction sections generalizing first content with
  | nil => rfl
  | cons s rest ih =>
      obtain ⟨-, -, hrest⟩ := htiles
      obtain ⟨hown, hlater⟩ := content_in_split hrest hcontent
      rw [distribute, List.map_cons, hown, ih hrest (hcontent.sublist (List.dropWhile_sublist _))]
      congr 1
      exact List.map_congr_left fun t ht => by rw [hlater t ht]

/-- The sections of a tiling have all content lines between its ends, each once and in order. -/
theorem flat_map_content_in {first last : Int} {sections : List Section}
    (htiles : Tiles first last sections) {content : List Numbered} (hcontent : Ascending content)
    (hwithin : ∀ a ∈ content, first ≤ a.1 ∧ a.1 ≤ last) :
    sections.flatMap (contentIn · content) =
      content.flatMap fun (_, line) => Text.closeLine line := by
  induction sections generalizing first content with
  | nil =>
      have hnil : content = [] := by
        refine List.eq_nil_iff_forall_not_mem.2 ?_
        intro a ha
        have := hwithin a ha
        have hend : first = last + 1 := htiles
        omega
      rw [hnil]
      rfl
  | cons s rest ih =>
      obtain ⟨hfirst, -, hrest⟩ := htiles
      obtain ⟨hown, hlater⟩ := content_in_split hrest hcontent
      have hall : ∀ a ∈ content.takeWhile fun (n, _) => n ≤ s.last,
          s.first ≤ a.1 ∧ a.1 ≤ s.last := by
        intro a ha
        have hge := (hwithin a ((List.takeWhile_sublist _).subset ha)).1
        exact ⟨by omega, le_of_mem_take_while ha⟩
      have hbeyond : ∀ a ∈ content.dropWhile fun (n, _) => n ≤ s.last,
          s.last + 1 ≤ a.1 ∧ a.1 ≤ last := by
        intro a ha
        have hlt := lt_of_mem_drop_while hcontent ha
        exact ⟨hlt, (hwithin a ((List.dropWhile_sublist _).subset ha)).2⟩
      have hrestAll := ih hrest (hcontent.sublist (List.dropWhile_sublist _)) hbeyond
      calc (s :: rest).flatMap (contentIn · content)
          = contentIn s (content.takeWhile fun (n, _) => n ≤ s.last) ++
              rest.flatMap (contentIn · (content.dropWhile fun (n, _) => n ≤ s.last)) := by
            rw [List.flatMap_cons, hown]
            congr 1
            rw [List.flatMap_def, List.flatMap_def, List.map_congr_left hlater]
        _ = content.flatMap fun (_, line) => Text.closeLine line := by
            rw [hrestAll, content_in_eq_all hall, ← List.flatMap_append,
              List.takeWhile_append_dropWhile]

end Assembly

end TrackedSections
