import TrackedSections.Proofs.Text.Lines

/-!
# Words between blanks

`IsWord` says that a text is what `words` may give: not empty and without a blank. Words with one
blank between neighbours are read back one by one, which is how the parts of a marker are written.
-/

namespace TrackedSections.Text

/-- A word is not empty and has no blank in it. -/
def IsWord (w : Text) : Prop := w ≠ [] ∧ ∀ c ∈ w, isBlank c = false

/-- `IsWord` is decidable by looking at each character. -/
instance (w : Text) : Decidable (IsWord w) :=
  decidable_of_iff ((!w.isEmpty && w.all fun c => !isBlank c) = true) (by simp [IsWord])

/-- A word lies within a line. -/
theorem IsWord.is_line {w : Text} (h : IsWord w) : IsLine w := by
  intro hc
  have hblank : isBlank '\n' = false := h.2 _ hc
  exact absurd hblank (by decide)

/-- No blank is left out before a word. -/
theorem IsWord.trim_left_append {w : Text} (h : IsWord w) (t : Text) :
    trimLeft (w ++ t) = w ++ t := by
  obtain ⟨hne, hblank⟩ := h
  cases w with
  | nil => exact absurd rfl hne
  | cons c w => simp [trimLeft, hblank c List.mem_cons_self]

/-- A blank before a text makes no difference to its words. -/
theorem words_cons_blank {b : Char} (hb : isBlank b = true) (t : Text) :
    words (b :: t) = words t := by
  simp [words, cutAt, hb]

/-- A word before a blank is the first one. -/
theorem words_append_cons {w : Text} (h : IsWord w) {b : Char} (hb : isBlank b = true)
    (t : Text) : words (w ++ b :: t) = w :: words t := by
  rw [words, cut_at_append_cons h.2 hb, List.filter_cons_of_pos (by simp [h.1]), words]

/-- A word alone is the only word of its text. -/
theorem words_of_is_word {w : Text} (h : IsWord w) : words w = [w] := by
  simp [words, cut_at_eq_singleton h.2, h.1]

/-- The words of a text are words. -/
theorem is_word_of_mem_words {t w : Text} (h : w ∈ words t) : IsWord w := by
  obtain ⟨hcut, hne⟩ := List.mem_filter.1 h
  exact ⟨by simpa using hne, cut_at_free hcut⟩

end TrackedSections.Text
