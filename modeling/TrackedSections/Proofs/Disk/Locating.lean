import TrackedSections.Proofs.Disk.Growing

/-!
# Where the paths above a path lead

Read `locate_of_append` first: where a path leads somewhere, the paths above it do. A disk refuses a path
for its length, so that needs that no path above is longer (`Path.limit_of_append`).
-/

namespace TrackedSections

namespace Text

theorem join_with_cons_cons (sep first second : Text) (rest : List Text) :
    joinWith sep (first :: second :: rest) = first ++ (sep ++ joinWith sep (second :: rest)) := by
  simp [joinWith]

/-- The first of some texts are written first. -/
theorem join_with_prefix (sep : Text) (first more : List Text) :
    joinWith sep first <+: joinWith sep (first ++ more) := by
  induction first with
  | nil => exact List.nil_prefix
  | cons name rest ih =>
      cases rest with
      | nil =>
          cases more with
          | nil => exact List.prefix_refl _
          | cons next more =>
              rw [List.singleton_append, join_with_cons_cons]
              simp [joinWith]
      | cons second rest =>
          rw [List.cons_append, List.cons_append, join_with_cons_cons, join_with_cons_cons]
          exact (List.prefix_append_right_inj _).2 ((List.prefix_append_right_inj _).2 ih)

/-- The last of some texts may be written longer. -/
theorem join_with_concat (sep last more : Text) (names : List Text) :
    joinWith sep (names ++ [last ++ more]) = joinWith sep (names ++ [last]) ++ more := by
  induction names with
  | nil => simp [joinWith]
  | cons name rest ih =>
      cases rest with
      | nil => simp [joinWith]
      | cons second rest =>
          rw [List.cons_append, List.cons_append, List.cons_append, List.cons_append,
            join_with_cons_cons, join_with_cons_cons, ← List.cons_append, ← List.cons_append, ih]
          simp only [List.append_assoc]

/-- There are separators between the texts that are written. -/
theorem length_le_join_with (sep : Char) (names : List Text) :
    names.length ≤ (joinWith [sep] names).length + 1 := by
  induction names with
  | nil => simp
  | cons name rest ih =>
      cases rest with
      | nil => simp
      | cons second rest =>
          rw [join_with_cons_cons, List.length_cons, List.length_append, List.length_append,
            List.length_singleton]
          omega

/-- A text has at least as many octets as characters. -/
theorem length_le_encode (t : Text) : t.length ≤ t.encode.length := by
  induction t with
  | nil => simp
  | cons c t ih =>
      have hchar : 0 < (String.utf8EncodeChar c).length := by
        rw [String.length_utf8EncodeChar]
        exact Char.utf8Size_pos c
      rw [encode, List.flatMap_cons, List.length_append, List.length_cons]
      rw [encode] at ih
      omega

end Text

/-- The text of a path has few enough octets if that of a path below it has. -/
theorem Path.limit_of_append (path : Path) (more : List Text)
    (h : ¬ Disk.pathLimit ≤ (Path.toText ⟨path.anchor, path.names ++ more⟩).encode.length) :
    ¬ Disk.pathLimit ≤ path.toText.encode.length := by
  obtain ⟨anchor, names⟩ := path
  by_cases hempty : anchor = .none ∧ names = []
  · obtain ⟨rfl, rfl⟩ := hempty
    decide
  · have htext : ∀ all, names <+: all →
        Path.toText ⟨anchor, all⟩ = anchor.toText ++ Text.joinWith ['/'] all := by
      intro all hbegins
      unfold Path.toText
      split
      · next hanchor hall =>
          dsimp only at hanchor hall
          exact absurd ⟨hanchor, List.prefix_nil.1 (hall ▸ hbegins)⟩ hempty
      · rfl
    obtain ⟨tail, htail⟩ := Text.join_with_prefix ['/'] names more
    rw [htext _ (List.prefix_append _ _), ← htail] at h
    rw [htext _ (List.prefix_refl _)]
    simp only [Text.encode, List.flatMap_append, List.length_append] at h ⊢
    omega

namespace Disk

variable {d : Disk} {path : Path} {place : List Text}

/-- A path that leads somewhere is not too long. -/
theorem limit_of_locate (h : d.locate path = .ok place) : path.toText.encode.length < pathLimit := by
  unfold locate at h
  split at h
  · cases h
  · next hlimit => exact Nat.not_le.1 hlimit

/-- A path to a file has no more names than a path may have octets. -/
theorem length_of_is_file (h : d.isFile path = .ok true) : path.names.length ≤ pathLimit := by
  obtain ⟨content, hread⟩ := read_of_is_file h
  obtain ⟨place, h, -⟩ := locate_of_read hread
  have hlimit := limit_of_locate h
  have hjoin := Text.length_le_join_with '/' path.names
  have hencode := Text.length_le_encode path.toText
  have htext : (Text.joinWith ['/'] path.names).length ≤ path.toText.length := by
    unfold Path.toText
    split
    · next hnames => simp [hnames, Text.joinWith]
    · simp
  omega

/-- Where a path leads, the paths above it lead to what is above. -/
theorem locate_of_append {more : List Text}
    (h : d.locate ⟨path.anchor, path.names ++ more⟩ = .ok place) :
    ∃ above, d.locate path = .ok above ∧ follow d.tree above more = .ok place := by
  have hlimit := path.limit_of_append more (Nat.not_le.2 (limit_of_locate h))
  have hfollow : follow d.tree (d.start path) (path.names ++ more) = .ok place := follow_of_locate h
  rw [follow_append] at hfollow
  have hlocate : d.locate path = follow d.tree (d.start path) path.names := by
    rw [locate, if_neg hlimit]
    rfl
  cases habove : follow d.tree (d.start path) path.names with
  | error refusal =>
      rw [habove] at hfollow
      cases hfollow
  | ok above =>
      rw [habove] at hfollow
      exact ⟨above, hlocate.trans habove, hfollow⟩

end Disk

end TrackedSections
