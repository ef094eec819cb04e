import TrackedSections.Proofs.Marker.Grammar

/-!
# The canonical line of a marker

A marker may be written in many ways: some kinds have a second keyword, blanks may stand between the parts of
its line, and more words may follow its argument. Read `canonical_line_reads_back` first: whatever the comment
prefix, the canonical line of a marker that was read is read as that marker, and it is the canonical line of
every line that spells the marker (`Spells`) and of no other.
-/

namespace TrackedSections.Marker

open Text

variable {commentPrefix line : Text} {m : Marker}

/-- `Spells commentPrefix line m` says that `line` is one of the ways to write the marker `m` on some line of a
file: blanks or nothing stand before the sentinel, and the words after it are the section, one of the keywords
of the kind, the argument if there is one, and perhaps more after an argument. -/
def Spells (commentPrefix line : Text) (m : Marker) : Prop :=
  ∃ rest word more, Leads commentPrefix line rest ∧ (word, m.kind) ∈ MarkerKind.keywords ∧
    rest.words = m.scope :: word :: (m.argument.toList ++ more) ∧ (m.argument = none → more = [])

/-- A line with another number is read as the same marker with that number. -/
theorem read_at {n : Int} (h : read commentPrefix n line = .marker m) (k : Int) :
    read commentPrefix k line = .marker { m with line := k } := by
  have hmarker := marker_read_number commentPrefix line k n
  rw [h] at hmarker
  cases hread : read commentPrefix k line with
  | content => simp [hread, Reading.marker?] at hmarker
  | faulty fault => simp [hread, Reading.marker?] at hmarker
  | marker m' => simpa [hread, Reading.marker?] using hmarker

/-- The words of a marker are its section, a keyword of its kind and its argument, and more words follow an
argument only. -/
theorem Says.words_eq {ws : List Text} (h : Says ws m) :
    ∃ word more, (word, m.kind) ∈ MarkerKind.keywords ∧
      ws = m.scope :: word :: (m.argument.toList ++ more) ∧ (m.argument = none → more = []) := by
  obtain ⟨word, hword, hkeyword⟩ := h.keyword
  obtain ⟨tail, rfl⟩ : ∃ tail, ws = m.scope :: word :: tail := by
    match ws, h.scope_eq, hword with
    | _ :: _ :: tail, hscope, hword => exact ⟨tail, by simp_all⟩
  have hargument : m.argument = tail.head? := by simpa [List.head?_eq_getElem?] using h.argument_eq
  refine ⟨word, tail.tail, hkeyword, ?_, fun hnone => ?_⟩
  · cases tail <;> simp [hargument]
  · rw [hargument, List.head?_eq_none_iff] at hnone
    rw [hnone, List.tail_nil]

/-- The lines that are read as a well-formed marker are those that spell it. -/
theorem read_eq_marker_iff_spells (hline : IsLine line) (hne : commentPrefix ≠ []) (hm : m.WellFormed) :
    read commentPrefix m.line line = .marker m ↔ Spells commentPrefix line m := by
  constructor
  · intro h
    rw [read] at h
    cases hwords : wordsOf? commentPrefix line with
    | none => simp [hwords] at h
    | some ws =>
        rw [hwords] at h
        obtain ⟨-, rest, hleads, rfl⟩ := leads_of_words hwords
        obtain ⟨word, more, hkeyword, hsaid, hmore⟩ := (of_words_eq_marker_iff.1 h).2.words_eq
        exact ⟨rest, word, more, hleads, hkeyword, hsaid, hmore⟩
  · rintro ⟨rest, word, more, hleads, hkeyword, hwords, hmore⟩
    obtain ⟨hhas, hscope, hdigits⟩ := check_eq_none_iff.1 hm.check_eq_none
    have hargument : m.argument = rest.words[2]? := by
      rw [hwords]
      cases h : m.argument with
      | none => simp [hmore h]
      | some argument => simp
    have hsays : Says rest.words m :=
      ⟨by simp [hwords], ⟨word, by simp [hwords], hkeyword⟩, hargument, hhas, hscope, hdigits⟩
    rw [read, words_of_leads hline hne hleads]
    exact of_words_eq_marker_iff.2 ⟨rfl, hsays⟩

/-- Canonical lines tell well-formed markers apart, except for the numbers of their lines. -/
theorem eq_of_row_eq (hne : commentPrefix ≠ []) {m' : Marker} (hm : m.WellFormed) (hm' : m'.WellFormed)
    (hline : m'.line = m.line)
    (h : row commentPrefix m'.kind m'.scope m'.argument = row commentPrefix m.kind m.scope m.argument) :
    m' = m := by
  have hread := read_row hne hm'
  rw [h, hline, read_row hne hm] at hread
  exact (Reading.marker.inj hread).symm

/-- The canonical line of a marker that was read has no line feed but the one that closes it, and it is read as
that marker again, whatever its number. All lines that spell the marker are read as it, and they are the lines
with this canonical line: a line that is read as another marker has another one. -/
theorem canonical_line_reads_back (hline : IsLine line) {n : Int}
    (h : read commentPrefix n line = .marker m) (k : Int) :
    ∃ text, write commentPrefix m.kind m.scope m.argument = closeLine text ∧ IsLine text ∧
      read commentPrefix k text = .marker { m with line := k } ∧
      (∀ other, IsLine other →
        (read commentPrefix k other = .marker { m with line := k } ↔ Spells commentPrefix other m)) ∧
      ∀ other i m', IsLine other → read commentPrefix i other = .marker m' →
        (write commentPrefix m'.kind m'.scope m'.argument = closeLine text ↔
          Spells commentPrefix other m) := by
  obtain ⟨hne, hstart, -, hm⟩ := read_eq_marker h
  have hprefix : IsLine commentPrefix := fun hc => hline (hstart.subset hc)
  have hthere : ({ m with line := k } : Marker).WellFormed :=
    ⟨hm.scope_word, hm.argument_word, hm.check_eq_none⟩
  have hspells (other : Text) (hother : IsLine other) :
      read commentPrefix k other = .marker { m with line := k } ↔ Spells commentPrefix other m :=
    read_eq_marker_iff_spells hother hne hthere
  refine ⟨row commentPrefix m.kind m.scope m.argument, write_eq_close_line _ _ _ _, is_line_row hprefix hm,
    read_row hne hthere, hspells, fun other i m' hother hread => ?_⟩
  have hread := read_at hread k
  rw [← hspells other hother, hread, write_eq_close_line, closeLine, closeLine, List.append_left_inj,
    Reading.marker.injEq]
  constructor
  · intro hrow
    exact eq_of_row_eq hne hthere (read_eq_marker hread).2.2.2 rfl hrow
  · intro hsame
    obtain ⟨-, hscope, hkind, hargument⟩ := Marker.mk.inj hsame
    rw [hscope, hkind, hargument]

/-- A marker of a section that is named like a keyword, with a comment prefix of dots and a blank, the second
keyword of its kind and one word too many. -/
theorem dotted_line_reads_back :
    let line : Text := ".. \u3000...begin\tstart  ...  more".toList
    let m : Marker := ⟨3, "begin".toList, .start, some "...".toList⟩
    IsLine line ∧ read ".. ".toList 3 line = .marker m ∧
      ∃ text, write ".. ".toList m.kind m.scope m.argument = closeLine text ∧ IsLine text ∧
        read ".. ".toList 8 text = .marker { m with line := 8 } ∧
        (∀ other, IsLine other →
          (read ".. ".toList 8 other = .marker { m with line := 8 } ↔ Spells ".. ".toList other m)) ∧
        ∀ other i m', IsLine other → read ".. ".toList i other = .marker m' →
          (write ".. ".toList m'.kind m'.scope m'.argument = closeLine text ↔
            Spells ".. ".toList other m) := by
  intro line m
  have hline : IsLine line := by decide
  have hread : read ".. ".toList 3 line = .marker m := by decide
  exact ⟨hline, hread, canonical_line_reads_back hline hread 8⟩

end TrackedSections.Marker
