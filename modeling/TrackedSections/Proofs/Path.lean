import TrackedSections.Host
import TrackedSections.Proofs.Disk.Locating
import TrackedSections.Proofs.Text.Lines

/-!
# Paths and how they are written

A path that was read has neither empty names nor `.` among its names, and no slash within one. Read
`Normal.of_text_to_text` first: such a path is read back from what it is written as. It also stays the
same when `~` is expanded a second time (`Host.expand_to_text`), unless it starts at a directory that is
called `~` itself.
-/

namespace TrackedSections

open Text

namespace Path

/-- A path leads to what another one leads to or to what is above it. -/
def Covers (p q : Path) : Prop := q.anchor = p.anchor ∧ p.names <+: q.names

theorem Covers.refl (p : Path) : p.Covers p := ⟨rfl, List.prefix_refl _⟩

theorem Covers.trans {p q r : Path} (h : p.Covers q) (h' : q.Covers r) : p.Covers r :=
  ⟨h'.1.trans h.1, h.2.trans h'.2⟩

theorem covers_parent (p : Path) : p.parent.Covers p := ⟨rfl, List.dropLast_prefix _⟩

/-- A path whose names are those of entries. -/
def Normal (p : Path) : Prop := ∀ name ∈ p.names, name ≠ [] ∧ name ≠ ['.'] ∧ '/' ∉ name

/-- A path starts at an entry of the working directory that is called `~`. -/
def StartsWithTilde (p : Path) : Prop := p.anchor = .none ∧ p.names.head? = some ['~']

theorem normal_of_text (t : Text) : (ofText t).Normal := by
  intro name hname
  obtain ⟨hpiece, hkept⟩ := List.mem_filter.1 hname
  have hkept : name ≠ [] ∧ name ≠ ['.'] := by simpa using hkept
  refine ⟨hkept.1, hkept.2, fun hslash => ?_⟩
  simpa using cut_at_free hpiece '/' hslash

theorem Normal.join {p q : Path} (h : p.Normal) (h' : q.Normal) : (p.join q).Normal := by
  unfold Path.join
  split
  · exact h'
  · intro name hname
    exact (List.mem_append.1 hname).elim (h name) (h' name)

theorem names_of_slash (t : Text) : namesOf ('/' :: t) = namesOf t := by
  have hpieces : pieces '/' ('/' :: t) = [] :: pieces '/' t :=
    cut_at_append_cons (a := []) (by simp) rfl t
  rw [namesOf, hpieces]
  rfl

/-- The names of a path are read back from what is written between slashes. -/
theorem Normal.names_of_join {p : Path} (h : p.Normal) : namesOf (joinWith ['/'] p.names) = p.names := by
  have hfree : ∀ name ∈ p.names, ∀ c ∈ name, (c == '/') = false := by
    intro name hname c hc
    simp only [beq_eq_false_iff_ne, ne_eq]
    rintro rfl
    exact (h name hname).2.2 hc
  have hpieces : ∀ names : List Text, names ≠ [] → (∀ name ∈ names, ∀ c ∈ name, (c == '/') = false) →
      pieces '/' (joinWith ['/'] names) = names := by
    intro names hne hfree
    induction names with
    | nil => exact absurd rfl hne
    | cons name rest ih =>
        cases rest with
        | nil =>
            have hjoin : joinWith ['/'] [name] = name := by simp [joinWith]
            rw [hjoin]
            exact cut_at_eq_singleton (hfree name List.mem_cons_self)
        | cons second rest =>
            rw [join_with_cons_cons]
            have hrest := ih (List.cons_ne_nil _ _) fun name' hname' =>
              hfree name' (List.mem_cons_of_mem _ hname')
            exact (cut_at_append_cons (hfree name List.mem_cons_self) rfl _).trans
              (congrArg (name :: ·) hrest)
  by_cases hnil : p.names = []
  · rw [hnil]
    rfl
  · rw [namesOf, hpieces p.names hnil hfree]
    exact List.filter_eq_self.2 fun name hname => by simp [h name hname]

theorem Normal.head_join {p : Path} (h : p.Normal) : (joinWith ['/'] p.names).head? ≠ some '/' := by
  cases hnames : p.names with
  | nil => simp [joinWith]
  | cons name rest =>
      obtain ⟨hne, -, hslash⟩ := h name (by simp [hnames])
      obtain ⟨c, more, rfl⟩ := List.exists_cons_of_ne_nil hne
      intro hhead
      have hfirst : (joinWith ['/'] ((c :: more) :: rest)).head? = some c := by
        cases rest <;> rfl
      rw [hfirst] at hhead
      obtain rfl := Option.some.inj hhead
      exact hslash List.mem_cons_self

theorem anchor_of_text {anchor : Anchor} {t : Text} (h : t.head? ≠ some '/') :
    anchorOf (anchor.toText ++ t) = anchor := by
  cases t with
  | nil => cases anchor <;> rfl
  | cons c rest =>
      have hc : c ≠ '/' := fun heq => h (by rw [heq]; rfl)
      cases anchor <;> simp [Anchor.toText, anchorOf, hc]

/-- A path is read back from what it is written as. -/
theorem Normal.of_text_to_text {p : Path} (h : p.Normal) : ofText p.toText = p := by
  have hjoined : ofText (p.anchor.toText ++ joinWith ['/'] p.names) = p := by
    have hnames : namesOf (p.anchor.toText ++ joinWith ['/'] p.names) = p.names := by
      cases p.anchor with
      | none => exact h.names_of_join
      | slash => exact (names_of_slash _).trans h.names_of_join
      | doubleSlash =>
          exact (names_of_slash _).trans ((names_of_slash _).trans h.names_of_join)
    rw [ofText, anchor_of_text h.head_join, hnames]
  -- The path without anchor and names is written as a dot.
  obtain ⟨anchor, names⟩ := p
  cases anchor with
  | none =>
      cases names with
      | nil => rfl
      | cons name rest => exact hjoined
  | slash => exact hjoined
  | doubleSlash => exact hjoined

end Path

namespace Host

variable {host : Host} {t : Text} {p : Path}

/-- What a path is expanded to is a path that was read. -/
theorem normal_of_expand (h : host.expand t = .ok p) : p.Normal := by
  have hhome : ∀ q, host.homeDirectory = .ok q → q.Normal := by
    intro q hq
    unfold homeDirectory homeOf at hq
    split at hq
    · cases hq
    · split at hq
      · cases hq
      · obtain rfl := Except.ok.inj hq
        exact Path.normal_of_text _
  unfold expand at h
  split at h
  · exact hhome p h
  · next rest =>
      cases hq : host.homeDirectory with
      | error failure => simp [hq, Except.map] at h
      | ok q =>
          rw [hq] at h
          obtain rfl := Except.ok.inj h
          exact (hhome q hq).join (Path.normal_of_text rest)
  · obtain rfl := Except.ok.inj h
    exact Path.normal_of_text t

/-- Expanding a path once more changes it only where it starts at a directory that is called `~`. -/
theorem expand_to_text (h : p.Normal) (htilde : ¬ p.StartsWithTilde) :
    host.expand p.toText = .ok p := by
  have hread := h.of_text_to_text
  unfold expand
  split
  · next ht =>
      rw [ht] at hread
      exact absurd (by rw [← hread]; exact ⟨rfl, rfl⟩) htilde
  · next rest ht =>
      have hpieces : pieces '/' ('~' :: '/' :: rest) = ['~'] :: pieces '/' rest :=
        cut_at_append_cons (a := ['~']) (by simp) rfl rest
      rw [ht, Path.ofText, Path.namesOf, hpieces] at hread
      exact absurd (by rw [← hread]; exact ⟨rfl, rfl⟩) htilde
  · rw [hread]

/-- What is written `t` is expanded to `path`, and what `path` is written as is expanded to `again`. -/
structure ExpandsTwice (host : Host) (t : Text) (path again : Path) : Prop where
  first : host.expand t = .ok path
  second : host.expand path.toText = .ok again

/-- The second time nothing is expanded, unless the path starts with `~`. -/
theorem ExpandsTwice.eq {path again : Path} (h : host.ExpandsTwice t path again)
    (htilde : ¬ path.StartsWithTilde) : again = path :=
  Except.ok.inj (h.second.symm.trans (expand_to_text (normal_of_expand h.first) htilde))

end Host

end TrackedSections
