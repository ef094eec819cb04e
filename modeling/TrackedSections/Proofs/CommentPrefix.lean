import Mathlib.Data.List.DropRight
import TrackedSections.CommentPrefix

/-!
# Which comment prefix is detected

A comment prefix may be suggested for several reasons, which `Step.all` has in the order of their precedence.
`Offers` says of each of these steps which prefix it offers, in terms of how the name of the file and its first
line are made up (`IsPlainName`, `IsExtension`, `IsInterpreter`, `IsUnversioned`). Read `detect_first_offer`
first: the prefix that is detected is the first one offered that is not empty, and there always is one.
-/

namespace TrackedSections

namespace Text

variable {p : Char → Bool} {t key tail before : Text} {c : Char}

/-- What stands behind the last character of a kind is the longest tail without one. -/
theorem take_trailing_append (hc : p c = false) (htail : ∀ a ∈ tail, p a = true) :
    (before ++ c :: tail).rtakeWhile p = tail := by
  have hreverse : ∀ a ∈ tail.reverse, p a = true := fun a ha => htail a (List.mem_reverse.1 ha)
  rw [List.rtakeWhile, List.reverse_append, List.reverse_cons, List.append_assoc,
    List.takeWhile_append_of_pos hreverse, List.singleton_append,
    List.takeWhile_cons_of_neg (by simp [hc]), List.append_nil, List.reverse_reverse]

/-- A text with a character of a kind is cut at the last one. -/
theorem exists_take_trailing (h : ∃ a ∈ t, p a = false) :
    ∃ before c, t = before ++ c :: t.rtakeWhile p ∧ p c = false := by
  have hne : t.rdropWhile p ≠ [] := by
    obtain ⟨a, ha, hpa⟩ := h
    intro hnil
    rw [List.rdropWhile_eq_nil_iff.1 hnil a ha] at hpa
    cases hpa
  refine ⟨(t.rdropWhile p).dropLast, (t.rdropWhile p).getLast hne, ?_, ?_⟩
  · rw [← List.singleton_append, ← List.append_assoc, List.dropLast_append_getLast hne,
      List.rdropWhile_append_rtakeWhile]
  · simpa using List.rdropWhile_last_not p t hne

/-- A text is cut before its longest tail of characters of a kind. -/
theorem drop_trailing_eq_iff : dropTrailing p t = key ↔
    ∃ tail, t = key ++ tail ∧ (∀ a ∈ tail, p a = true) ∧ ∀ c ∈ key.getLast?, p c = false := by
  show t.rdropWhile p = key ↔ _
  have hlast (u : Text) : (∀ c ∈ u.getLast?, p c = false) ↔ ∀ hne : u ≠ [], ¬ p (u.getLast hne) = true := by
    cases u with
    | nil => simp
    | cons a u => simp [List.getLast?_eq_some_getLast]
  constructor
  · rintro rfl
    exact ⟨t.rtakeWhile p, List.rdropWhile_append_rtakeWhile.symm,
      fun a ha => List.mem_rtakeWhile_imp ha, (hlast _).2 (List.rdropWhile_last_not p t)⟩
  · rintro ⟨tail, rfl, htail, hkey⟩
    have hreverse : ∀ a ∈ tail.reverse, p a = true := fun a ha => htail a (List.mem_reverse.1 ha)
    rw [List.rdropWhile, List.reverse_append, List.dropWhile_append_of_pos hreverse]
    exact List.rdropWhile_eq_self_iff.2 ((hlast key).1 hkey)

end Text

/-- The extension of a name stands behind its last dot, which is neither the first nor the last character. -/
theorem Path.extension_eq_some_iff {name extension : Text} :
    Path.extensionOf name = some extension ↔
      extension ≠ [] ∧ '.' ∉ extension ∧ ∃ stem, stem ≠ [] ∧ name = stem ++ '.' :: extension := by
  have htail : (name.reverse.takeWhile (· ≠ '.')).reverse = name.rtakeWhile (· ≠ '.') := rfl
  rw [Path.extensionOf, htail]
  constructor
  · intro h
    simp only [Option.ite_none_right_eq_some, Option.some.injEq] at h
    obtain ⟨⟨hne, hlength⟩, rfl⟩ := h
    have hdot : ∃ c ∈ name, decide (c ≠ '.') = false := by
      by_contra hnone
      have hall : name.rtakeWhile (· ≠ '.') = name :=
        List.rtakeWhile_eq_self_iff.2 fun c hc => by simpa using fun heq => hnone ⟨c, hc, by simp [heq]⟩
      rw [hall] at hlength
      omega
    obtain ⟨stem, c, hname, hc⟩ := Text.exists_take_trailing hdot
    obtain rfl : c = '.' := by simpa using hc
    refine ⟨hne, fun hmem => ?_, stem, ?_, hname⟩
    · simpa using List.mem_rtakeWhile_imp hmem
    · rintro rfl
      have hlengths := congrArg List.length hname
      simp only [List.nil_append, List.length_cons] at hlengths
      omega
  · rintro ⟨hne, hdot, stem, hstem, rfl⟩
    have hfree : ∀ c ∈ extension, decide (c ≠ '.') = true := by
      intro c hc
      simp only [decide_eq_true_eq]
      rintro rfl
      exact hdot hc
    have hlength : 0 < stem.length := List.length_pos_iff.2 hstem
    rw [Text.take_trailing_append (by simp) hfree, if_pos ⟨hne, by simp; omega⟩]

namespace CommentPrefix

/-! ## What is looked up -/

/-- A file name without the dots that it starts with. -/
def IsPlainName (name key : Text) : Prop :=
  key ≠ [] ∧ key.head? ≠ some '.' ∧ ∃ dots, (∀ c ∈ dots, c = '.') ∧ name = dots ++ key

/-- What stands behind the last dot of a file name, which is neither its first nor its last character. -/
def IsExtension (name key : Text) : Prop :=
  key ≠ [] ∧ '.' ∉ key ∧ ∃ stem, stem ≠ [] ∧ name = stem ++ '.' :: key

/-- What a hashbang names: its last word or file name, after at least one slash or space behind `#!/`. -/
def IsInterpreter (line key : Text) : Prop :=
  key ≠ [] ∧ ∃ (before : Text) (separator : Char) (word : Text),
    line.trim = "#!/".toList ++ (before ++ separator :: word) ∧ '\n' ∉ before ++ word ∧
      (separator = '/' ∨ separator = ' ') ∧ '/' ∉ word ∧ ' ' ∉ word ∧ key = word.trim

/-- An interpreter without the digits and dots at its end. -/
def IsUnversioned (interpreter key : Text) : Prop :=
  ∃ version, interpreter = key ++ version ∧ (∀ c ∈ version, Text.isDecimal c = true ∨ c = '.') ∧
    ∀ c ∈ key.getLast?, Text.isDecimal c = false ∧ c ≠ '.'

/-- What a key stands for: what the user says of it, or what is common if the user says nothing. -/
inductive Entry (own common : Prefixes) (key : Text) : Text → Prop where
  | own {value : Text} (h : own.lookup key = some value) : Entry own common key value
  | common {value : Text} (hown : own.lookup key = none) (h : common.lookup key = some value) :
      Entry own common key value

variable {config : Config} {path : Path} {firstLine key line : Text}

theorem plain_name_eq_some_iff : plainName? path = some key ↔ IsPlainName path.name key := by
  have hsplit : path.name.takeWhile (· = '.') ++ path.name.dropWhile (· = '.') = path.name :=
    List.takeWhile_append_dropWhile
  rw [plainName?]
  constructor
  · intro h
    simp only [Option.ite_none_left_eq_some, Option.some.injEq] at h
    obtain ⟨hne, rfl⟩ := h
    refine ⟨hne, fun hhead => ?_, path.name.takeWhile (· = '.'), fun c hc => ?_, hsplit.symm⟩
    · have hnot := List.head?_dropWhile_not (fun c => decide (c = '.')) path.name
      simp [hhead] at hnot
    · simpa using List.mem_takeWhile_imp hc
  · rintro ⟨hne, hhead, dots, hdots, hname⟩
    obtain ⟨c, rest, rfl⟩ := List.exists_cons_of_ne_nil hne
    have hc : c ≠ '.' := fun heq => hhead (by rw [heq]; rfl)
    rw [hname, List.dropWhile_append_of_pos (by simpa using hdots),
      List.dropWhile_cons_of_neg (by simpa using hc), if_neg (List.cons_ne_nil _ _)]

theorem after_last_separator_eq_some_iff {t word : Text} : afterLastSeparator? t = some word ↔
    ∃ before separator, t = before ++ separator :: word ∧ (separator = '/' ∨ separator = ' ') ∧
      '/' ∉ word ∧ ' ' ∉ word := by
  let isSeparator (c : Char) : Bool := decide (c = '/') || decide (c = ' ')
  have hcut : afterLastSeparator? t =
      if t.any isSeparator then some (t.rtakeWhile (!isSeparator ·)) else none := rfl
  have hseparator (c : Char) : isSeparator c = true ↔ c = '/' ∨ c = ' ' := by
    simp only [isSeparator, Bool.or_eq_true, decide_eq_true_eq]
  have hfree (word : Text) : (∀ c ∈ word, (!isSeparator c) = true) ↔ '/' ∉ word ∧ ' ' ∉ word := by
    simp only [Bool.not_eq_true', ← Bool.not_eq_true, hseparator, not_or]
    exact ⟨fun h => ⟨fun hc => (h _ hc).1 rfl, fun hc => (h _ hc).2 rfl⟩,
      fun h c hc => ⟨fun heq => h.1 (heq ▸ hc), fun heq => h.2 (heq ▸ hc)⟩⟩
  rw [hcut]
  constructor
  · intro h
    simp only [Option.ite_none_right_eq_some, Option.some.injEq, List.any_eq_true] at h
    obtain ⟨⟨c, hc, hkind⟩, rfl⟩ := h
    obtain ⟨before, separator, heq, hlast⟩ :=
      Text.exists_take_trailing (p := (!isSeparator ·)) ⟨c, hc, by rw [hkind, Bool.not_true]⟩
    exact ⟨before, separator, heq, (hseparator _).1 (by simpa using hlast),
      (hfree _).1 fun c hc => List.mem_rtakeWhile_imp (p := (!isSeparator ·)) hc⟩
  · rintro ⟨before, separator, rfl, hkind, hword⟩
    have hkind := (hseparator separator).2 hkind
    rw [Text.take_trailing_append (by rw [hkind, Bool.not_true]) ((hfree word).2 hword),
      if_pos (by simp [hkind])]

theorem interpreter_eq_some_iff : interpreter? line = some key ↔ IsInterpreter line key := by
  rw [interpreter?]
  constructor
  · intro h
    split at h
    · next rest hline =>
        split at h
        · cases h
        · next hfeed =>
            cases hword : afterLastSeparator? rest with
            | none => simp [hword] at h
            | some word =>
                simp only [hword, Option.ite_none_left_eq_some, Option.some.injEq] at h
                obtain ⟨hne, rfl⟩ := h
                obtain ⟨before, separator, rfl, hkind, hslash, hspace⟩ :=
                  after_last_separator_eq_some_iff.1 hword
                exact ⟨hne, before, separator, word, hline, fun hc => hfeed (by simp_all), hkind, hslash,
                  hspace, rfl⟩
    · cases h
  · rintro ⟨hne, before, separator, word, hline, hfeed, hkind, hslash, hspace, rfl⟩
    have hword : afterLastSeparator? (before ++ separator :: word) = some word :=
      after_last_separator_eq_some_iff.2 ⟨before, separator, rfl, hkind, hslash, hspace⟩
    have hfeed : '\n' ∉ before ++ separator :: word := by
      rcases hkind with rfl | rfl <;> simpa using hfeed
    have hline : line.trim = '#' :: '!' :: '/' :: (before ++ separator :: word) := hline
    simp only [hline, if_neg hfeed, hword, if_neg hne]

theorem without_version_eq_iff {interpreter : Text} :
    withoutVersion interpreter = key ↔ IsUnversioned interpreter key := by
  rw [withoutVersion, Text.drop_trailing_eq_iff]
  simp [IsUnversioned]

theorem prefix_at_eq_some_iff {own common : Prefixes} {value : Text} :
    prefixAt? own common key = some value ↔ Entry own common key value := by
  rw [prefixAt?, Option.or_eq_some_iff]
  constructor
  · rintro (h | ⟨hown, h⟩)
    · exact .own h
    · exact .common hown h
  · rintro (h | ⟨hown, h⟩)
    · exact .inl h
    · exact .inr ⟨hown, h⟩

/-! ## What is offered -/

/-- The reasons for a comment prefix. -/
inductive Step where
  | filename
  | extension
  | interpreter
  | unversioned
  | default
  | fallback

/-- The steps in the order of their precedence. -/
def Step.all : List Step := [.filename, .extension, .interpreter, .unversioned, .default, .fallback]

/-- `Offers config path firstLine step value` says that a step has the comment prefix `value`, perhaps an empty
one, for the file at a path with a first line. -/
inductive Offers (config : Config) (path : Path) (firstLine : Text) : Step → Text → Prop where
  | filename {key value : Text} (hkey : IsPlainName path.name key)
      (h : Entry config.filenames commonFilenames key value) : Offers config path firstLine .filename value
  | extension {key value : Text} (hkey : IsExtension path.name key)
      (h : Entry config.extensions commonExtensions key value) : Offers config path firstLine .extension value
  | interpreter {key value : Text} (hkey : IsInterpreter firstLine key)
      (h : Entry config.interpreters commonInterpreters key value) :
      Offers config path firstLine .interpreter value
  | unversioned {interpreter key value : Text} (hinterpreter : IsInterpreter firstLine interpreter)
      (hkey : IsUnversioned interpreter key)
      (h : Entry config.interpreters commonInterpreters key value) :
      Offers config path firstLine .unversioned value
  | default : Offers config path firstLine .default config.defaultPrefix
  | fallback : Offers config path firstLine .fallback ['#']

/-- What a step finds. -/
def candidate (config : Config) (path : Path) (firstLine : Text) : Step → Option Text
  | .filename => (plainName? path).bind (prefixAt? config.filenames commonFilenames)
  | .extension => (Path.extensionOf path.name).bind (prefixAt? config.extensions commonExtensions)
  | .interpreter => (interpreter? firstLine).bind (prefixAt? config.interpreters commonInterpreters)
  | .unversioned => (interpreter? firstLine).bind fun interpreter =>
      prefixAt? config.interpreters commonInterpreters (withoutVersion interpreter)
  | .default => some config.defaultPrefix
  | .fallback => some fallback

theorem candidates_eq_map : candidates config path firstLine = Step.all.map (candidate config path firstLine) :=
  rfl

/-- A step finds what it offers. -/
theorem candidate_eq_some_iff {step : Step} {value : Text} :
    candidate config path firstLine step = some value ↔ Offers config path firstLine step value := by
  constructor
  · intro h
    cases step with
    | filename =>
        obtain ⟨key, hkey, h⟩ := Option.bind_eq_some_iff.1 h
        exact .filename (plain_name_eq_some_iff.1 hkey) (prefix_at_eq_some_iff.1 h)
    | extension =>
        obtain ⟨key, hkey, h⟩ := Option.bind_eq_some_iff.1 h
        exact .extension (Path.extension_eq_some_iff.1 hkey) (prefix_at_eq_some_iff.1 h)
    | interpreter =>
        obtain ⟨key, hkey, h⟩ := Option.bind_eq_some_iff.1 h
        exact .interpreter (interpreter_eq_some_iff.1 hkey) (prefix_at_eq_some_iff.1 h)
    | unversioned =>
        obtain ⟨interpreter, hinterpreter, h⟩ := Option.bind_eq_some_iff.1 h
        exact .unversioned (interpreter_eq_some_iff.1 hinterpreter) (without_version_eq_iff.1 rfl)
          (prefix_at_eq_some_iff.1 h)
    | default =>
        obtain rfl := Option.some.inj h
        exact .default
    | fallback =>
        obtain rfl := Option.some.inj h
        exact .fallback
  · intro h
    cases h with
    | filename hkey h =>
        exact Option.bind_eq_some_iff.2 ⟨_, plain_name_eq_some_iff.2 hkey, prefix_at_eq_some_iff.2 h⟩
    | extension hkey h =>
        exact Option.bind_eq_some_iff.2 ⟨_, Path.extension_eq_some_iff.2 hkey, prefix_at_eq_some_iff.2 h⟩
    | interpreter hkey h =>
        exact Option.bind_eq_some_iff.2 ⟨_, interpreter_eq_some_iff.2 hkey, prefix_at_eq_some_iff.2 h⟩
    | unversioned hinterpreter hkey h =>
        refine Option.bind_eq_some_iff.2 ⟨_, interpreter_eq_some_iff.2 hinterpreter, ?_⟩
        rw [without_version_eq_iff.2 hkey]
        exact prefix_at_eq_some_iff.2 h
    | default | fallback => rfl

/-- A step offers one prefix at most. -/
theorem Offers.unique {step : Step} {value value' : Text} (h : Offers config path firstLine step value)
    (h' : Offers config path firstLine step value') : value = value' :=
  Option.some.inj ((candidate_eq_some_iff.2 h).symm.trans (candidate_eq_some_iff.2 h'))

/-- The comment prefix that is detected is not empty. It is what the first step offers of those that offer one
that is not empty: the steps before it offer nothing or an empty one. -/
theorem detect_first_offer (config : Config) (path : Path) (firstLine : Text) :
    detect config path firstLine ≠ [] ∧ ∀ found, detect config path firstLine = found ↔
      found ≠ [] ∧ ∃ before step after, Step.all = before ++ step :: after ∧
        Offers config path firstLine step found ∧
        ∀ earlier ∈ before, ∀ value, Offers config path firstLine earlier value → value = [] := by
  let counts (step : Step) : Bool := (candidate config path firstLine step).any (· ≠ [])
  have hcounts (step : Step) : counts step = true ↔
      ∃ value, Offers config path firstLine step value ∧ value ≠ [] := by
    simp only [counts, Option.any_eq_true, candidate_eq_some_iff, decide_eq_true_eq]
  have hsilent (step : Step) : (!counts step) = true ↔
      ∀ value, Offers config path firstLine step value → value = [] := by
    rw [Bool.not_eq_true', ← Bool.not_eq_true, hcounts]
    simp only [not_exists, not_and, not_not]
  have hfirst (step : Step) : Step.all.find? counts = some step ↔ counts step = true ∧
      ∃ before after, Step.all = before ++ step :: after ∧ ∀ earlier ∈ before, (!counts earlier) = true :=
    List.find?_eq_some_iff_append
  -- The last step always offers something.
  obtain ⟨step, hstep⟩ : ∃ step, Step.all.find? counts = some step := by
    rw [← Option.isSome_iff_exists, List.find?_isSome]
    exact ⟨.fallback, by simp [Step.all], (hcounts _).2 ⟨_, .fallback, by simp⟩⟩
  obtain ⟨hcount, before, after, hall, hbefore⟩ := (hfirst step).1 hstep
  obtain ⟨value, hvalue, hne⟩ := (hcounts step).1 hcount
  have hdetect : detect config path firstLine = value := by
    have hcandidate := candidate_eq_some_iff.2 hvalue
    rw [detect, candidates_eq_map, List.filterMap_map, List.find?_filterMap]
    show ((Step.all.find? counts).bind (candidate config path firstLine)).getD fallback = value
    rw [hstep, Option.bind_some, hcandidate, Option.getD_some]
  rw [hdetect]
  refine ⟨hne, fun found => ⟨?_, ?_⟩⟩
  · rintro rfl
    exact ⟨hne, before, step, after, hall, hvalue, fun earlier he => (hsilent earlier).1 (hbefore earlier he)⟩
  · rintro ⟨hfound, before', step', after', hall', hoffers, hbefore'⟩
    have hstep' := (hfirst step').2 ⟨(hcounts step').2 ⟨found, hoffers, hfound⟩, before', after', hall',
      fun earlier he => (hsilent earlier).2 (hbefore' earlier he)⟩
    obtain rfl := Option.some.inj (hstep.symm.trans hstep')
    exact hvalue.unique hoffers

/-- An empty prefix of the user hides the common one of an extension, so that the interpreter counts. -/
example : detect { Config.empty with extensions := [("py".toList, [])] } (Path.ofText "bin/.run.py".toList)
    "#!/usr/bin/env node18.2".toList = "//".toList := by decide

end CommentPrefix

end TrackedSections
