import TrackedSections.Proofs.Text.Utf8
import TrackedSections.Proofs.Toml.RoundTrip
import TrackedSections.Sidecar

/-!
# Sidecars are read back

Read `read_write` first: what a sidecar is written as is read as the same sidecar, whatever texts and
numbers it holds.
-/

namespace TrackedSections

open Text

/-- Text without carriage returns has the line ends of the format already. -/
theorem Text.normalize_newlines_of_not_mem {t : Text} (h : '\r' ∉ t) : normalizeNewlines t = t := by
  induction t with
  | nil => rfl
  | cons c t ih =>
      obtain ⟨hc, ht⟩ := not_or.1 (mt List.mem_cons.2 h)
      rw [normalizeNewlines, ih ht, if_neg (Ne.symm hc)]
      rintro _ rfl
      exact absurd rfl hc

namespace Toml

/-- No hexadecimal digit is a carriage return. -/
theorem return_not_mem_padded {n : Nat} (h : n < 128) : '\r' ∉ padLeft 4 '0' (hexadecimal n) := by
  revert n
  decide

/-- An escape has no carriage return in it. -/
theorem return_not_mem_escape (c : Char) : '\r' ∉ escape c := by
  rw [escape]
  cases hletter : escapeLetter? c with
  | some letter =>
      have hne : letter ≠ '\r' := by
        rintro rfl
        have hunescape := (unescape_of_escape_letter hletter).1
        cases hunescape
      simpa using Ne.symm hne
  | none =>
      dsimp only
      split
      · next hforbidden => simpa using return_not_mem_padded (lt_of_is_forbidden hforbidden)
      · next hplain =>
          rw [List.mem_singleton]
          rintro rfl
          cases hletter

/-- Text between double quotes has no carriage return in it. -/
theorem return_not_mem_write_text (t : Text) : '\r' ∉ writeText t := by
  have hflat : '\r' ∉ t.flatMap escape := by
    intro h
    obtain ⟨c, -, hc⟩ := List.mem_flatMap.1 h
    exact return_not_mem_escape c hc
  simpa [writeText] using hflat

/-- A number has no carriage return in it. -/
theorem return_not_mem_of_int (n : Int) : '\r' ∉ ofInt n := by
  have hnat (n : Nat) : '\r' ∉ ofNat n := fun h =>
    absurd (is_decimal_here_of_mem h) (by decide)
  cases n with
  | ofNat n => exact hnat n
  | negSucc n => simpa [ofInt] using hnat (n + 1)

end Toml

namespace Sidecar

open Toml

/-- An entry with a text. -/
def textOf (key : String) (t : Text) : Entry := ⟨key.toList, .text t, writeText t⟩

/-- An entry with a number. -/
def integerOf (key : String) (n : Int) : Entry := ⟨key.toList, .integer n, ofInt n⟩

/-- The entries that a sidecar is written as. -/
def entries (s : Sidecar) : List Entry :=
  [textOf "hash" s.accepted, textOf "parent" s.fileName] ++ (s.target.map (textOf "target")).toList ++
    (s.source.map (textOf "source")).toList ++ (s.permissions.map (integerOf "permissions")).toList ++
    [textOf "imosidversion" s.version, integerOf "syntaxversion" s.formatVersion]

/-- What is written of a number is the line of its entry, and the number is read back. -/
theorem of_integer_entry {key : String} {n : Int} {t : Text} (h : integerEntry key n = .ok t) :
    t = (integerOf key n).line ∧ Written (.integer n) (ofInt n) := by
  unfold integerEntry at h
  cases hwrite : writeInt n with
  | error fault => simp [hwrite] at h
  | ok written =>
      have hwritten := written_integer hwrite
      obtain ⟨rfl, -⟩ := of_write_int hwrite
      rw [hwrite] at h
      exact ⟨(Except.ok.inj h).symm, hwritten⟩

/-- A text that may be absent is written as the line of its entry. -/
theorem optional_entry_eq (key : String) (t : Option Text) :
    optionalEntry key t = (t.map (textOf key)).toList.flatMap (·.line) := by
  cases t with
  | none => rfl
  | some t => simp [optionalEntry, textEntry, textOf, Entry.line]

/-- A sidecar is written as the lines of its entries, and its numbers are read back. -/
theorem of_write {s : Sidecar} {t : Text} (h : s.write = .ok t) :
    t = s.entries.flatMap (·.line) ∧
      (∀ n ∈ s.permissions, Written (.integer n) (ofInt n)) ∧
      Written (.integer s.formatVersion) (ofInt s.formatVersion) := by
  -- The permissions are written first, then the version of the format.
  obtain ⟨permissions, hline, hpermissions, h⟩ : ∃ permissions : Text,
      permissions = (s.permissions.map (integerOf "permissions")).toList.flatMap (·.line) ∧
      (∀ n ∈ s.permissions, Written (.integer n) (ofInt n)) ∧
      (do
        let formatVersion ← integerEntry "syntaxversion" s.formatVersion
        pure (textEntry "hash" s.accepted ++ textEntry "parent" s.fileName ++
          optionalEntry "target" s.target ++ optionalEntry "source" s.source ++ permissions ++
          textEntry "imosidversion" s.version ++ formatVersion)) = Except.ok t := by
    unfold write at h
    cases hpermissions : s.permissions with
    | none =>
        rw [hpermissions] at h
        exact ⟨[], rfl, by simp, h⟩
    | some n =>
        rw [hpermissions] at h
        cases hentry : integerEntry "permissions" n with
        | error failure => simp [hentry, bind, Except.bind] at h
        | ok written =>
            obtain ⟨hline, hwritten⟩ := of_integer_entry hentry
            refine ⟨written, by simp [hline], by simpa using hwritten, ?_⟩
            simpa only [hentry, bind, Except.bind] using h
  cases hentry : integerEntry "syntaxversion" s.formatVersion with
  | error failure => simp [hentry, bind, Except.bind] at h
  | ok written =>
      obtain ⟨hversion, hwritten⟩ := of_integer_entry hentry
      refine ⟨?_, hpermissions, hwritten⟩
      simp only [hentry, bind, Except.bind, pure, Except.pure, Except.ok.injEq] at h
      rw [← h, optional_entry_eq, optional_entry_eq, hline, hversion, entries]
      simp only [List.flatMap_append, List.flatMap_cons, List.flatMap_nil, List.append_nil,
        List.append_assoc]
      rfl

/-- The keys that a sidecar may have. -/
def keys : List Text :=
  ["hash".toList, "parent".toList, "target".toList, "source".toList, "permissions".toList,
    "imosidversion".toList, "syntaxversion".toList]

/-- The keys of a sidecar are bare. -/
theorem bare_of_mem_keys : ∀ key ∈ keys, key ≠ [] ∧ key.all isBare = true ∧ '\r' ∉ key := by decide

/-- An entry that may be absent has its key or none. -/
theorem keys_of_optional {α : Type} {entry : α → Entry} {key : Text} (h : ∀ a, (entry a).key = key)
    (a : Option α) : ((a.map entry).toList.map (·.key)).Sublist [key] := by
  cases a with
  | none => exact List.nil_sublist _
  | some a => simp [h]

/-- A sidecar has each key once at most, and in a fixed order. -/
theorem keys_sublist (s : Sidecar) : (s.entries.map (·.key)).Sublist keys := by
  have htext (key : String) : ∀ t, (textOf key t).key = key.toList := fun _ => rfl
  have hinteger (key : String) : ∀ n, (integerOf key n).key = key.toList := fun _ => rfl
  have htarget := keys_of_optional (htext "target") s.target
  have hsource := keys_of_optional (htext "source") s.source
  have hpermissions := keys_of_optional (hinteger "permissions") s.permissions
  rw [entries, List.map_append, List.map_append, List.map_append, List.map_append]
  exact ((((List.Sublist.refl _).append htarget).append hsource).append hpermissions).append
    (List.Sublist.refl _)

/-- Each entry of a sidecar has a text or one of its numbers. -/
theorem mem_entries_cases {s : Sidecar} {e : Entry} (h : e ∈ s.entries) :
    (∃ key t, e = textOf key t) ∨
      ∃ key n, e = integerOf key n ∧ (n ∈ s.permissions ∨ n = s.formatVersion) := by
  simp only [entries, List.mem_append, List.mem_cons, List.not_mem_nil, or_false, Option.mem_toList,
    Option.map_eq_some_iff] at h
  rcases h with ((((rfl | rfl) | ⟨t, -, rfl⟩) | ⟨t, -, rfl⟩) | ⟨n, hn, rfl⟩) | rfl | rfl
  · exact .inl ⟨_, _, rfl⟩
  · exact .inl ⟨_, _, rfl⟩
  · exact .inl ⟨_, _, rfl⟩
  · exact .inl ⟨_, _, rfl⟩
  · exact .inr ⟨_, _, rfl, .inl hn⟩
  · exact .inl ⟨_, _, rfl⟩
  · exact .inr ⟨_, _, rfl, .inr rfl⟩

/-- The entries of a sidecar that can be written are valid. -/
theorem valid_of_mem_entries {s : Sidecar} {t : Text} (h : s.write = .ok t) {e : Entry}
    (he : e ∈ s.entries) : e.Valid := by
  obtain ⟨-, hpermissions, hversion⟩ := of_write h
  obtain ⟨hne, hbare, -⟩ :=
    bare_of_mem_keys e.key (s.keys_sublist.subset (List.mem_map_of_mem he))
  refine ⟨hne, hbare, ?_⟩
  rcases mem_entries_cases he with ⟨key, t, rfl⟩ | ⟨key, n, rfl, hn | rfl⟩
  · exact written_text t
  · exact hpermissions n hn
  · exact hversion

/-- The lines of a sidecar have no carriage returns in them. -/
theorem return_not_mem_line {s : Sidecar} {e : Entry} (h : e ∈ s.entries) : '\r' ∉ e.line := by
  obtain ⟨-, -, hkey⟩ := bare_of_mem_keys e.key (s.keys_sublist.subset (List.mem_map_of_mem h))
  have hwritten : '\r' ∉ e.written := by
    rcases mem_entries_cases h with ⟨key, t, rfl⟩ | ⟨key, n, rfl, -⟩
    · exact return_not_mem_write_text t
    · exact return_not_mem_of_int n
  simp [Entry.line, writeEntry, hkey, hwritten]

/-- A sidecar is read from the table of its entries. -/
theorem of_table_entries (s : Sidecar) (path : Path) (content : Bytes) :
    ofTable path content (tableOf s.entries) =
      .ok (finalize { s with path, content, isModified := false }) := by
  rw [entries]
  cases htarget : s.target <;> cases hsource : s.source <;> cases hpermissions : s.permissions <;>
    rfl

/-- A sidecar that was read is that of its path and of the content, and says whether that was edited. -/
theorem of_read {path : Path} {content octets : Bytes} {s : Sidecar}
    (h : read path content octets = .ok s) :
    s.path = path ∧ s.content = content ∧ s.isModified = decide (s.accepted ≠ s.current) := by
  unfold read at h
  split at h
  · cases h
  · split at h
    · cases h
    · cases h
    · unfold ofTable at h
      dsimp only at h
      split at h
      · obtain rfl := Except.ok.inj h
        exact ⟨rfl, rfl, rfl⟩
      · cases h

/-- A sidecar that was written is read back for a file with a given content, and it is modified when the
accepted digest is not that of the content. -/
theorem read_write {s : Sidecar} {t : Text} (h : s.write = .ok t) (path : Path) (content : Bytes) :
    read path content t.encode = .ok (finalize { s with path, content, isModified := false }) := by
  obtain ⟨hlines, -, -⟩ := of_write h
  have hreturn : '\r' ∉ t := by
    rw [hlines]
    intro hmem
    obtain ⟨e, he, hmem⟩ := List.mem_flatMap.1 hmem
    exact return_not_mem_line he hmem
  rw [read, Text.decode_encode]
  dsimp only
  rw [normalize_newlines_of_not_mem hreturn, hlines,
    read_document (fun e he => valid_of_mem_entries h he)
      (s.keys_sublist.nodup (by decide))]
  exact of_table_entries s path content

end Sidecar

end TrackedSections
