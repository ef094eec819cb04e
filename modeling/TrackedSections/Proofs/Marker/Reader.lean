import TrackedSections.Marker.Reader
import TrackedSections.Proofs.Text.Words

/-!
# What is read as a marker

Read `read_row` first: the canonical line of a well-formed marker is read as that marker. Every
marker that is read is well-formed, and the number of a line decides only about the number of its
marker, so that `isContent` can speak of a line alone.
-/

namespace TrackedSections.Marker

open Text

/-- The canonical line of a marker, without the line feed after it. -/
def row (commentPrefix : Text) (kind : MarkerKind) (name : Text) (argument : Option Text) : Text :=
  commentPrefix ++ sentinel ++ ' ' :: name ++ ' ' :: kind.keyword ++
    (match argument with
      | none => []
      | some word => ' ' :: word)

/-- A marker is written as its canonical line. -/
theorem write_eq_close_line (commentPrefix : Text) (kind : MarkerKind) (name : Text)
    (argument : Option Text) :
    write commentPrefix kind name argument = closeLine (row commentPrefix kind name argument) := by
  cases argument <;> simp [write, row, closeLine]

/-- The scope and the argument of a marker are words, and no rule about its kind is broken. -/
structure WellFormed (m : Marker) : Prop where
  scope_word : IsWord m.scope
  argument_word : ∀ word ∈ m.argument, IsWord word
  check_eq_none : check m.kind m.scope m.argument = none

/-- A keyword is a word. -/
theorem is_word_keyword (kind : MarkerKind) : IsWord kind.keyword := by
  cases kind <;> decide

/-- The keyword that a kind is written with is read as that kind. -/
theorem of_keyword_keyword (kind : MarkerKind) : MarkerKind.ofKeyword? kind.keyword = some kind := by
  cases kind <;> rfl

/-- The canonical line of a marker has no line feed in it. -/
theorem is_line_row {commentPrefix : Text} (hline : IsLine commentPrefix) {m : Marker}
    (hm : m.WellFormed) : IsLine (row commentPrefix m.kind m.scope m.argument) := by
  have hsentinel : IsLine sentinel := by decide
  have hkeyword := (is_word_keyword m.kind).is_line
  have hscope := hm.scope_word.is_line
  cases hargument : m.argument with
  | none => simp_all [row, IsLine]
  | some word =>
      have hword := (hm.argument_word word hargument).is_line
      simp_all [row, IsLine]

/-- What follows a start is found by dropping it. -/
@[simp] theorem drop_start_append (start t : Text) : dropStart? start (start ++ t) = some t := by
  simp [dropStart?]

/-- A start that can be dropped is there. -/
theorem prefix_of_drop_start {start t rest : Text} (h : dropStart? start t = some rest) :
    start <+: t := by
  unfold dropStart? at h
  split at h
  · next hpre => exact List.isPrefixOf_iff_prefix.1 hpre
  · cases h

/-- What is left of a text when its start is dropped is what follows the start. -/
theorem eq_append_of_drop_start {start t rest : Text} (h : dropStart? start t = some rest) :
    t = start ++ rest := by
  obtain ⟨after, rfl⟩ := prefix_of_drop_start h
  rw [drop_start_append] at h
  rw [Option.some.inj h]

/-- The words after the sentinel of a canonical line. -/
theorem words_of_row {commentPrefix : Text} (hnonempty : commentPrefix ≠ []) {m : Marker}
    (hm : m.WellFormed) :
    wordsOf? commentPrefix (row commentPrefix m.kind m.scope m.argument) =
      some (m.scope :: m.kind.keyword :: m.argument.toList) := by
  obtain ⟨hscope, hargument, -⟩ := hm
  have hkeyword := is_word_keyword m.kind
  have hsentinel : IsWord sentinel := by decide
  have hblank : isBlank ' ' = true := by decide
  -- What stands after the sentinel, less the blank before it.
  obtain ⟨tail, hrow, hwords, hline⟩ : ∃ tail : Text,
      row commentPrefix m.kind m.scope m.argument =
        commentPrefix ++ (sentinel ++ ' ' :: (m.scope ++ tail)) ∧
      words (m.scope ++ tail) = m.scope :: m.kind.keyword :: m.argument.toList ∧
      IsLine (m.scope ++ tail) := by
    cases hm : m.argument with
    | none =>
        refine ⟨' ' :: m.kind.keyword, by simp [row], ?_, ?_⟩
        · rw [words_append_cons hscope hblank, words_of_is_word hkeyword, Option.toList_none]
        · simpa [IsLine] using And.intro hscope.is_line hkeyword.is_line
    | some word =>
        have hword := hargument word hm
        refine ⟨' ' :: (m.kind.keyword ++ ' ' :: word), by simp [row], ?_, ?_⟩
        · rw [words_append_cons hscope hblank, words_append_cons hkeyword hblank,
            words_of_is_word hword, Option.toList_some]
        · simpa [IsLine] using
            And.intro hscope.is_line (And.intro hkeyword.is_line hword.is_line)
  have hsingle : isSingleLine (m.scope ++ tail) = true := by
    simp only [isSingleLine, decide_eq_true_eq]
    exact fun hc => hline (List.dropLast_subset _ hc)
  have htrim : trimLeft (' ' :: (m.scope ++ tail)) = m.scope ++ tail := by
    rw [trimLeft, List.dropWhile_cons_of_pos hblank]
    exact hscope.trim_left_append tail
  rw [wordsOf?, if_neg hnonempty, hrow, drop_start_append]
  dsimp only
  rw [hsentinel.trim_left_append, drop_start_append]
  dsimp only
  rw [htrim, if_pos hsingle, words_cons_blank hblank, hwords]

/-- The canonical line of a well-formed marker is read as that marker. -/
theorem read_row {commentPrefix : Text} (hnonempty : commentPrefix ≠ []) {m : Marker}
    (hm : m.WellFormed) :
    read commentPrefix m.line (row commentPrefix m.kind m.scope m.argument) = .marker m := by
  have hhead : m.argument.toList.head? = m.argument := by cases m.argument <;> rfl
  rw [read, words_of_row hnonempty hm]
  simp [ofWords, of_keyword_keyword, hhead, hm.check_eq_none]

/-- A line with the shape of a marker starts with the comment prefix, which is not empty. -/
theorem words_of_eq_some {commentPrefix t : Text} {ws : List Text}
    (h : wordsOf? commentPrefix t = some ws) :
    commentPrefix ≠ [] ∧ commentPrefix <+: t ∧ ∀ w ∈ ws, IsWord w := by
  unfold wordsOf? at h
  split at h
  · cases h
  · next hnonempty =>
      cases hrest : dropStart? commentPrefix t with
      | none => simp [hrest] at h
      | some rest =>
          cases hafter : dropStart? sentinel rest.trimLeft with
          | none => simp [hrest, hafter] at h
          | some after =>
              simp only [hrest, hafter, Option.ite_none_right_eq_some, Option.some.injEq] at h
              obtain ⟨-, rfl⟩ := h
              exact ⟨hnonempty, prefix_of_drop_start hrest, fun w hw => is_word_of_mem_words hw⟩

/-- Words that are read as a marker are its scope, its keyword and a rest with its argument, and they pass the
check of its kind. -/
theorem of_words_cases {line : Int} {ws : List Text} {m : Marker} (h : ofWords line ws = .marker m) :
    m.line = line ∧ ∃ word rest, ws = m.scope :: word :: rest ∧
      MarkerKind.ofKeyword? word = some m.kind ∧ rest.head? = m.argument ∧
      check m.kind m.scope m.argument = none := by
  unfold ofWords at h
  split at h
  · next name word rest =>
      cases hkind : MarkerKind.ofKeyword? word with
      | none => simp [hkind] at h
      | some kind =>
          cases hcheck : check kind name rest.head? with
          | some fault => simp [hkind, hcheck] at h
          | none =>
              simp only [hkind, hcheck, Reading.marker.injEq] at h
              subst h
              exact ⟨rfl, word, rest, rfl, hkind, rfl, hcheck⟩
  · cases h

/-- A marker that is read off words has the number of its line and is well-formed. -/
theorem of_words_eq_marker {line : Int} {ws : List Text} {m : Marker}
    (hws : ∀ w ∈ ws, IsWord w) (h : ofWords line ws = .marker m) :
    m.line = line ∧ m.WellFormed := by
  obtain ⟨hline, word, rest, rfl, -, hargument, hcheck⟩ := of_words_cases h
  refine ⟨hline, hws m.scope (by simp), fun w hw => ?_, hcheck⟩
  exact hws w (by simp [List.mem_of_head? (hargument.trans hw)])

/-- A line that is read as a marker starts with the comment prefix, which is not empty; the marker has
the number of its line and is well-formed. -/
theorem read_eq_marker {commentPrefix t : Text} {line : Int} {m : Marker}
    (h : read commentPrefix line t = .marker m) :
    commentPrefix ≠ [] ∧ commentPrefix <+: t ∧ m.line = line ∧ m.WellFormed := by
  unfold read at h
  split at h
  · cases h
  · next ws hwords =>
      obtain ⟨hnonempty, hstart, hws⟩ := words_of_eq_some hwords
      exact ⟨hnonempty, hstart, of_words_eq_marker hws h⟩

/-- A line with another number is read as the same marker with that number. -/
theorem marker_read_number (commentPrefix t : Text) (line other : Int) :
    (read commentPrefix line t).marker? =
      (read commentPrefix other t).marker?.map fun m => { m with line } := by
  unfold read
  split
  · rfl
  · unfold ofWords
    repeat' (first | rfl | split)

/-- A line that is no marker. -/
def isContent (commentPrefix t : Text) : Bool := (read commentPrefix 1 t).marker?.isNone

/-- A line is content whatever its number. -/
theorem is_none_marker_read (commentPrefix t : Text) (line : Int) :
    (read commentPrefix line t).marker?.isNone = isContent commentPrefix t := by
  rw [isContent, marker_read_number commentPrefix t line 1, Option.isNone_map]

end TrackedSections.Marker
