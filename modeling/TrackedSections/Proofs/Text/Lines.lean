import TrackedSections.Document.Basic

/-!
# Cutting a text into lines and closing them again

`closeLines` writes lines one after another, each closed by a line feed. Read
`lines_close_lines` first: `lines` gives back any lines without a line feed of their own, and
`lines_open_last_line` says what it gives when the last line is left open. Conversely, no line
of any text has a line feed in it.
-/

namespace TrackedSections.Text

/-- `closeLines ls` is the text of the lines `ls`, each closed. -/
def closeLines (ls : List Text) : Text := ls.flatMap closeLine

/-- A line of a file has no line feed in it. -/
def IsLine (l : Text) : Prop := '\n' ∉ l

/-- `IsLine` is decidable by looking for a line feed. -/
instance (l : Text) : Decidable (IsLine l) := inferInstanceAs (Decidable (_ ∉ _))

@[simp] theorem close_lines_nil : closeLines [] = [] := rfl

@[simp] theorem close_lines_cons (l : Text) (ls : List Text) :
    closeLines (l :: ls) = closeLine l ++ closeLines ls := by
  simp [closeLines]

@[simp] theorem close_lines_append (ls ls' : List Text) :
    closeLines (ls ++ ls') = closeLines ls ++ closeLines ls' := by
  simp [closeLines]

/-- Cutting at a character is splitting a list at it. -/
theorem cut_at_eq_split_on (p : Char → Bool) (t : Text) : cutAt p t = t.splitOnP p := by
  induction t with
  | nil => rfl
  | cons c t ih =>
      rw [List.splitOnP_cons_eq_if_modifyHead, cutAt, ih]
      cases h : t.splitOnP p with
      | nil => exact absurd h (List.splitOnP_ne_nil p t)
      | cons piece others => by_cases hc : p c <;> simp [hc]

/-- A stretch without a separator is the first piece of the text that goes on after it. -/
theorem cut_at_append_cons {p : Char → Bool} {a : Text} (h : ∀ c ∈ a, p c = false) {sep : Char}
    (hsep : p sep = true) (t : Text) : cutAt p (a ++ sep :: t) = a :: cutAt p t := by
  rw [cut_at_eq_split_on, cut_at_eq_split_on, List.splitOnP_append_cons_of_forall_mem h sep hsep]

/-- A text without separators is one piece. -/
theorem cut_at_eq_singleton {p : Char → Bool} {t : Text} (h : ∀ c ∈ t, p c = false) :
    cutAt p t = [t] := by
  rw [cut_at_eq_split_on, List.splitOnP_eq_singleton h]

/-- No piece has a separator in it. -/
theorem cut_at_free {p : Char → Bool} {t piece : Text} (h : piece ∈ cutAt p t) :
    ∀ c ∈ piece, p c = false := by
  induction t generalizing piece with
  | nil =>
      obtain rfl : piece = [] := by simpa [cutAt] using h
      simp
  | cons c t ih =>
      unfold cutAt at h
      split at h
      · rcases List.mem_cons.1 h with rfl | h
        · simp
        · exact ih h
      · next hc =>
          cases hcut : cutAt p t with
          | nil =>
              obtain rfl : piece = [c] := by simpa [hcut] using h
              simpa using hc
          | cons first others =>
              rw [hcut] at h ih
              rcases List.mem_cons.1 h with rfl | h
              · intro x hx
                rcases List.mem_cons.1 hx with rfl | hx
                · simpa using hc
                · exact ih List.mem_cons_self x hx
              · exact ih (List.mem_cons_of_mem _ h)

/-- Closed lines are the first pieces between the line feeds of a text. -/
theorem pieces_close_lines {ls : List Text} (h : ∀ l ∈ ls, IsLine l) (t : Text) :
    pieces '\n' (closeLines ls ++ t) = ls ++ pieces '\n' t := by
  induction ls with
  | nil => rfl
  | cons l ls ih =>
      have hl : ∀ c ∈ l, (c == '\n') = false := by
        intro c hc
        simp only [beq_eq_false_iff_ne, ne_eq]
        rintro rfl
        exact h l List.mem_cons_self hc
      rw [close_lines_cons, closeLine, List.append_assoc, List.append_assoc, List.singleton_append,
        pieces, cut_at_append_cons hl (by simp)]
      exact congrArg (l :: ·) (ih fun l' hl' => h l' (List.mem_cons_of_mem _ hl'))

/-- Lines that are all closed are read back as they are. -/
theorem lines_close_lines {ls : List Text} (h : ∀ l ∈ ls, IsLine l) :
    lines (closeLines ls) = (ls, true) := by
  have hpieces : pieces '\n' (closeLines ls) = ls ++ [[]] := by
    simpa [pieces, cutAt] using pieces_close_lines h []
  simp [lines, hpieces]

/-- The first line of a text is that of its closed beginning. -/
theorem first_line_close_line_append {l : Text} (h : IsLine l) (t : Text) :
    firstLine (closeLine l ++ t) = l := by
  have hchars : ∀ c ∈ l, decide (c ≠ '\n') = true := by
    intro c hc
    simp only [decide_eq_true_eq]
    rintro rfl
    exact h hc
  rw [closeLine, List.append_assoc, firstLine, List.takeWhile_append_of_pos hchars]
  simp

/-- The first of some closed lines is the first line of their text. -/
theorem first_line_close_lines {l : Text} (h : IsLine l) (ls : List Text) :
    firstLine (closeLines (l :: ls)) = l := by
  rw [close_lines_cons]
  exact first_line_close_line_append h (closeLines ls)

/-- Lines whose last one is open and not empty are read back as they are. -/
theorem lines_close_lines_append {ls : List Text} {l : Text} (h : ∀ l' ∈ ls, IsLine l')
    (hl : IsLine l) (hne : l ≠ []) : lines (closeLines ls ++ l) = (ls ++ [l], false) := by
  have hlast : pieces '\n' l = [l] := by
    refine cut_at_eq_singleton ?_
    intro c hc
    simp only [beq_eq_false_iff_ne, ne_eq]
    rintro rfl
    exact hl hc
  have hpieces : pieces '\n' (closeLines ls ++ l) = ls ++ [l] := by
    rw [pieces_close_lines h, hlast]
  simp [lines, hpieces, hne]

/-- No line of a text has a line feed in it. -/
theorem is_line_of_mem_lines {t l : Text} (h : l ∈ (lines t).1) : IsLine l := by
  have hmem : l ∈ pieces '\n' t := by
    unfold lines at h
    dsimp only at h
    split at h
    · exact List.dropLast_subset _ h
    · exact h
  intro hc
  simpa using cut_at_free hmem _ hc

/-- Opening the last of some closed lines removes the line feed after it. -/
theorem open_last_line_close_lines (ls : List Text) (l : Text) :
    Document.openLastLine (closeLines (ls ++ [l])) = closeLines ls ++ l := by
  have htext : closeLines (ls ++ [l]) = (closeLines ls ++ l) ++ ['\n'] := by simp [closeLine]
  rw [htext, Document.openLastLine, List.getLast?_concat, if_pos rfl, List.dropLast_concat]

/-- With the last line left open, all lines are read back when the last one is not empty. An empty
last line is lost, and the line before it is closed. -/
theorem lines_open_last_line {ls : List Text} (h : ∀ l ∈ ls, IsLine l) :
    lines (Document.openLastLine (closeLines ls)) =
      if ls.getLast?.getD [] = [] then (ls.dropLast, true) else (ls, false) := by
  rcases List.eq_nil_or_concat ls with rfl | ⟨ls, l, rfl⟩
  · rfl
  · rw [List.concat_eq_append] at h ⊢
    have hls : ∀ l' ∈ ls, IsLine l' := fun l' hl' => h l' (List.mem_append_left _ hl')
    rw [open_last_line_close_lines]
    by_cases hl : l = []
    · subst hl
      simpa using lines_close_lines hls
    · rw [lines_close_lines_append hls (h l (by simp)) hl]
      simp [hl]

theorem is_line_first_line (t : Text) : IsLine t.firstLine := by
  intro hmem
  simpa using List.all_eq_true.1 List.all_takeWhile '\n' hmem

/-- Opening the last line of a text leaves its first line as it is. -/
theorem first_line_open_last_line (t : Text) :
    firstLine (Document.openLastLine t) = firstLine t := by
  unfold Document.openLastLine
  split
  · next hlast =>
      obtain ⟨front, rfl⟩ := List.getLast?_eq_some_iff.1 hlast
      rw [List.dropLast_concat, firstLine, firstLine, List.takeWhile_append]
      split
      · next hlength => simpa using (List.takeWhile_prefix _).eq_of_length hlength
      · rfl
  · rfl

/-- The lines of a text that is not empty begin with its first line. -/
theorem lines_eq_cons {t : Text} (h : t ≠ []) : ∃ ls, t.lines.1 = t.firstLine :: ls := by
  have hline : ∀ c ∈ t.firstLine, (c == '\n') = false := by
    intro c hc
    simp only [beq_eq_false_iff_ne, ne_eq]
    rintro rfl
    exact is_line_first_line t hc
  have hcut : t = t.firstLine ++ t.dropWhile (· ≠ '\n') := List.takeWhile_append_dropWhile.symm
  cases hrest : t.dropWhile (· ≠ '\n') with
  | nil =>
      rw [hrest, List.append_nil] at hcut
      rw [← hcut] at hline ⊢
      have hpieces : pieces '\n' t = [t] := cut_at_eq_singleton hline
      simp [lines, hpieces, h]
  | cons c rest =>
      have hhead : (t.dropWhile (· ≠ '\n')).head? = some c := by rw [hrest]; rfl
      obtain rfl : c = '\n' := by
        have hstop := List.head?_dropWhile_not (· ≠ '\n') t
        rw [hhead] at hstop
        simpa using hstop
      have hpieces : pieces '\n' (t.firstLine ++ '\n' :: rest) = t.firstLine :: pieces '\n' rest :=
        cut_at_append_cons hline rfl rest
      rw [← hrest, ← hcut] at hpieces
      have hne : pieces '\n' rest ≠ [] := by
        rw [pieces, cut_at_eq_split_on]
        exact List.splitOnP_ne_nil _ _
      obtain ⟨piece, others, hothers⟩ := List.exists_cons_of_ne_nil hne
      rw [lines, hpieces, hothers]
      split
      · exact ⟨_, rfl⟩
      · exact ⟨_, rfl⟩

end TrackedSections.Text
