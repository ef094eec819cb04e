import Mathlib.Data.List.TakeWhile
import TrackedSections.Proofs.Marker.Reader

/-!
# The grammar of markers

`Marker.Leads` and `Marker.Says` are the grammar of marker lines: what stands on such a line, and what its
words say. Read `read_eq_marker_iff` first: a line is read as a marker exactly if the grammar has it. One can
also look for the comment prefix behind blanks and skip the blanks after the sentinel (`Marker.Found`). A
prefix of blanks or dots may then be found at more than one place, but all of them give the same words.
-/

namespace TrackedSections

open Text

namespace Text

/-- Blanks and nothing else. -/
def AllBlank (t : Text) : Prop := ∀ c ∈ t, isBlank c = true

/-- `AllBlank` is decidable by looking at each character. -/
instance (t : Text) : Decidable (AllBlank t) := List.decidableBAll (fun c => isBlank c = true) t

/-- Blanks before a text make no difference to its words. -/
theorem words_append_of_all_blank {blanks : Text} (h : AllBlank blanks) (t : Text) :
    words (blanks ++ t) = words t := by
  induction blanks with
  | nil => rfl
  | cons c blanks ih =>
      obtain ⟨hc, hblanks⟩ := List.forall_mem_cons.1 h
      rw [List.cons_append, words_cons_blank hc, ih hblanks]

/-- Blanks before a word are left out. -/
theorem IsWord.trim_left_blanks {w : Text} (h : IsWord w) {blanks : Text} (hblanks : AllBlank blanks)
    (t : Text) : trimLeft (blanks ++ (w ++ t)) = w ++ t := by
  rw [trimLeft, List.dropWhile_append_of_pos hblanks]
  exact h.trim_left_append t

/-- Blanks in front of a text that begins with it belong to the text, unless it is blank itself. -/
theorem all_blank_of_prefix_append {before t rest : Text} (hbefore : AllBlank before)
    (h : t <+: before ++ (t ++ rest)) : before = [] ∨ AllBlank t := by
  rcases hsolid : t.dropWhile isBlank with _ | ⟨c, solid⟩
  · exact .inr fun c hc => by simpa using List.dropWhile_eq_nil_iff.1 hsolid c hc
  · left
    have hc : isBlank c = false := by
      simpa [hsolid] using List.head?_dropWhile_not isBlank t
    have hsplit : t = t.takeWhile isBlank ++ c :: solid := by
      rw [← hsolid, List.takeWhile_append_dropWhile]
    -- Both ways to read the text give the blanks that it starts with.
    have hstop (front more : Text) (hfront : AllBlank front) :
        (front ++ c :: more).takeWhile isBlank = front := by
      rw [List.takeWhile_append_of_pos hfront, List.takeWhile_cons_of_neg (by simp [hc]),
        List.append_nil]
    have hhead : AllBlank (t.takeWhile isBlank) := fun c hc => List.mem_takeWhile_imp hc
    obtain ⟨more, hmore⟩ := h
    have hlong : (before ++ t.takeWhile isBlank) ++ c :: (solid ++ rest) =
        t.takeWhile isBlank ++ c :: (solid ++ more) := by
      calc (before ++ t.takeWhile isBlank) ++ c :: (solid ++ rest)
          = before ++ ((t.takeWhile isBlank ++ c :: solid) ++ rest) := by simp
        _ = t ++ more := by rw [← hsplit, hmore]
        _ = t.takeWhile isBlank ++ c :: (solid ++ more) := by
            conv => lhs; rw [hsplit]
            simp
    have hblanks := congrArg (List.takeWhile isBlank) hlong
    rw [hstop _ _ (List.forall_mem_append.2 ⟨hbefore, hhead⟩), hstop _ _ hhead] at hblanks
    simpa using hblanks

end Text

namespace Marker

variable {commentPrefix line rest : Text}

/-! ## Lines -/

/-- `Leads commentPrefix line rest` says that `line` is the comment prefix, blanks or nothing, the sentinel
and then `rest`. -/
def Leads (commentPrefix line rest : Text) : Prop :=
  ∃ blanks, AllBlank blanks ∧ line = commentPrefix ++ (blanks ++ (sentinel ++ rest))

/-- `Found commentPrefix line rest` says that `rest` is a part of `line` that may be taken for what stands
after the sentinel when blanks are skipped before the comment prefix, before the sentinel and after it. -/
def Found (commentPrefix line rest : Text) : Prop :=
  ∃ before between after, AllBlank before ∧ AllBlank between ∧ AllBlank after ∧
    line = before ++ (commentPrefix ++ (between ++ (sentinel ++ (after ++ rest))))

/-- A line with words is led by a comment prefix that is not empty, and the words are those of its rest. -/
theorem leads_of_words {ws : List Text} (h : wordsOf? commentPrefix line = some ws) :
    commentPrefix ≠ [] ∧ ∃ rest, Leads commentPrefix line rest ∧ rest.words = ws := by
  obtain ⟨hne, -, -⟩ := words_of_eq_some h
  rw [wordsOf?, if_neg hne] at h
  cases hdrop : dropStart? commentPrefix line with
  | none => simp [hdrop] at h
  | some tail =>
      cases hrest : dropStart? sentinel tail.trimLeft with
      | none => simp [hdrop, hrest] at h
      | some rest =>
          simp only [hdrop, hrest, Option.ite_none_right_eq_some, Option.some.injEq] at h
          refine ⟨hne, rest, ⟨tail.takeWhile isBlank, fun c hc => List.mem_takeWhile_imp hc, ?_⟩, h.2⟩
          rw [← eq_append_of_drop_start hrest, trimLeft, List.takeWhile_append_dropWhile]
          exact eq_append_of_drop_start hdrop

/-- The words of a line without a line feed are those of its rest. -/
theorem words_of_leads (hline : IsLine line) (hne : commentPrefix ≠ [])
    (h : Leads commentPrefix line rest) : wordsOf? commentPrefix line = some rest.words := by
  obtain ⟨blanks, hblanks, rfl⟩ := h
  have hsentinel : IsWord sentinel := by decide
  have hsingle : isSingleLine rest.trimLeft = true := by
    have hrest : IsLine rest := fun hc => hline (by simp [hc])
    simp only [isSingleLine, decide_eq_true_eq]
    exact fun hc => hrest ((List.dropWhile_suffix _).subset (List.dropLast_subset _ hc))
  rw [wordsOf?, if_neg hne, drop_start_append]
  dsimp only
  rw [hsentinel.trim_left_blanks hblanks, drop_start_append]
  dsimp only
  rw [if_pos hsingle]

/-- A line has one rest at most after its sentinel. -/
theorem Leads.unique {rest' : Text} (h : Leads commentPrefix line rest)
    (h' : Leads commentPrefix line rest') : rest = rest' := by
  have hsentinel : IsWord sentinel := by decide
  obtain ⟨blanks, hblanks, rfl⟩ := h
  obtain ⟨blanks', hblanks', heq⟩ := h'
  have htrim := congrArg trimLeft (List.append_cancel_left heq)
  rw [hsentinel.trim_left_blanks hblanks, hsentinel.trim_left_blanks hblanks'] at htrim
  exact List.append_cancel_left htrim

/-- Wherever the comment prefix is found on a line that starts with it, what follows is the rest of the line,
perhaps without the blanks that it starts with. -/
theorem Found.leads (h : Found commentPrefix line rest) (hstart : commentPrefix <+: line) :
    ∃ after, AllBlank after ∧ Leads commentPrefix line (after ++ rest) := by
  obtain ⟨before, between, after, hbefore, hbetween, hafter, rfl⟩ := h
  refine ⟨after, hafter, ?_⟩
  rcases all_blank_of_prefix_append hbefore hstart with rfl | hblank
  · exact ⟨between, hbetween, rfl⟩
  · -- A blank comment prefix is the beginning of the blanks before the sentinel.
    have hblanks : AllBlank (before ++ (commentPrefix ++ between)) :=
      List.forall_mem_append.2 ⟨hbefore, List.forall_mem_append.2 ⟨hblank, hbetween⟩⟩
    have hline : before ++ (commentPrefix ++ (between ++ (sentinel ++ (after ++ rest)))) =
        (before ++ (commentPrefix ++ between)) ++ (sentinel ++ (after ++ rest)) := by simp
    rw [hline] at hstart ⊢
    obtain ⟨blanks, hsplit⟩ := List.prefix_of_prefix_length_le hstart (List.prefix_append _ _)
      (by simp only [List.length_append]; omega)
    rw [← hsplit] at hblanks ⊢
    exact ⟨blanks, (List.forall_mem_append.1 hblanks).2, List.append_assoc ..⟩

/-! ## Words -/

/-- `Says ws m` says that the words `ws` are those of the marker `m`: its section, a keyword of its kind,
its argument if there is one, and perhaps more. Four kinds need an argument, two of which describe the whole
file, and the argument of a permissions marker is made of digits. -/
structure Says (ws : List Text) (m : Marker) : Prop where
  scope_eq : ws[0]? = some m.scope
  keyword : ∃ word, ws[1]? = some word ∧ (word, m.kind) ∈ MarkerKind.keywords
  argument_eq : m.argument = ws[2]?
  has_argument : m.kind ∈ [.hash, .source, .target, .permissions] → m.argument ≠ none
  scope_whole_file : m.kind ∈ [.target, .permissions] → m.scope = wholeFile
  argument_digits : m.kind = .permissions → ∀ word ∈ m.argument, ∀ c ∈ word, isDigit c = true

/-- A keyword belongs to the kind that it is listed with. -/
theorem of_keyword_eq_some_iff {word : Text} {kind : MarkerKind} :
    MarkerKind.ofKeyword? word = some kind ↔ (word, kind) ∈ MarkerKind.keywords := by
  constructor
  · intro h
    obtain ⟨before, after, heq, -⟩ := List.lookup_eq_some_iff.1 h
    exact heq ▸ List.mem_append_right _ List.mem_cons_self
  · intro h
    simp only [MarkerKind.keywords, List.mem_cons, Prod.mk.injEq, List.not_mem_nil, or_false] at h
    rcases h with ⟨rfl, rfl⟩ | ⟨rfl, rfl⟩ | ⟨rfl, rfl⟩ | ⟨rfl, rfl⟩ | ⟨rfl, rfl⟩ | ⟨rfl, rfl⟩ |
      ⟨rfl, rfl⟩ | ⟨rfl, rfl⟩ <;> rfl

/-- The rules for the parts of a marker, all kinds together. -/
theorem check_eq_none_iff {kind : MarkerKind} {name : Text} {argument : Option Text} :
    check kind name argument = none ↔
      (kind ∈ [.hash, .source, .target, .permissions] → argument ≠ none) ∧
        (kind ∈ [.target, .permissions] → name = wholeFile) ∧
        (kind = .permissions → ∀ word ∈ argument, ∀ c ∈ word, isDigit c = true) := by
  by_cases hname : name = wholeFile <;> cases kind <;> cases argument <;> simp [check, hname]

/-- A marker that does not begin or end a section has an argument. -/
theorem WellFormed.argument_of_kind {m : Marker} (h : m.WellFormed)
    (hkind : m.kind ∈ [.hash, .source, .target, .permissions]) :
    ∃ argument, m.argument = some argument :=
  Option.ne_none_iff_exists'.1 ((check_eq_none_iff.1 h.check_eq_none).1 hkind)

/-- A marker with a target or with permissions is one of the whole file. -/
theorem WellFormed.describes_file {m : Marker} (h : m.WellFormed)
    (hkind : m.kind ∈ [.target, .permissions]) : m.describesFile = true :=
  decide_eq_true ((check_eq_none_iff.1 h.check_eq_none).2.1 hkind)

/-- Words are read as a marker exactly if they are those of the marker. -/
theorem of_words_eq_marker_iff {n : Int} {ws : List Text} {m : Marker} :
    ofWords n ws = .marker m ↔ m.line = n ∧ Says ws m := by
  constructor
  · intro h
    obtain ⟨hline, word, rest, rfl, hkind, hrest, hcheck⟩ := of_words_cases h
    obtain ⟨hargument, hscope, hdigits⟩ := check_eq_none_iff.1 hcheck
    exact ⟨hline, rfl, ⟨word, rfl, of_keyword_eq_some_iff.1 hkind⟩,
      hrest.symm.trans List.head?_eq_getElem?, hargument, hscope, hdigits⟩
  · rintro ⟨rfl, hscope, ⟨word, hword, hkeyword⟩, hargument, hhas, hwhole, hdigits⟩
    obtain ⟨name, word', rest, rfl⟩ : ∃ name word' rest, ws = name :: word' :: rest := by
      match ws, hword with
      | name :: word' :: rest, _ => exact ⟨name, word', rest, rfl⟩
    obtain rfl : name = m.scope := Option.some.inj hscope
    obtain rfl : word' = word := Option.some.inj hword
    have hargument : rest.head? = m.argument := List.head?_eq_getElem?.trans hargument.symm
    have hcheck := check_eq_none_iff.2 ⟨hhas, hwhole, hdigits⟩
    rw [ofWords, of_keyword_eq_some_iff.2 hkeyword, hargument]
    simp only [hcheck]

/-! ## Reading -/

/-- A line is read as a marker exactly if it is the comment prefix, which is not empty, blanks or nothing, the
sentinel and a rest with the words of the marker, which has the number of the line. On a line that starts with
the comment prefix, it does not matter where the prefix and the sentinel are found and which blanks are skipped:
the words of whatever follows are those of the marker. -/
theorem read_eq_marker_iff (hline : IsLine line) (n : Int) (m : Marker) :
    (read commentPrefix n line = .marker m ↔
      commentPrefix ≠ [] ∧ m.line = n ∧ ∃ rest, Leads commentPrefix line rest ∧ Says rest.words m) ∧
    ∀ rest, commentPrefix ≠ [] → commentPrefix <+: line → Found commentPrefix line rest →
      (read commentPrefix n line = .marker m ↔ m.line = n ∧ Says rest.words m) := by
  have hgrammar : read commentPrefix n line = .marker m ↔
      commentPrefix ≠ [] ∧ m.line = n ∧ ∃ rest, Leads commentPrefix line rest ∧ Says rest.words m := by
    rw [read]
    cases hwords : wordsOf? commentPrefix line with
    | none =>
        refine iff_of_false (by simp) ?_
        rintro ⟨hne, -, rest, hleads, -⟩
        rw [words_of_leads hline hne hleads] at hwords
        cases hwords
    | some ws =>
        obtain ⟨hne, rest, hleads, rfl⟩ := leads_of_words hwords
        refine of_words_eq_marker_iff.trans ⟨fun h => ⟨hne, h.1, rest, hleads, h.2⟩, ?_⟩
        rintro ⟨-, hnumber, rest', hleads', hsays⟩
        exact ⟨hnumber, hleads.unique hleads' ▸ hsays⟩
  refine ⟨hgrammar, fun rest hne hstart hfound => ?_⟩
  obtain ⟨after, hafter, hleads⟩ := hfound.leads hstart
  have hwords := words_append_of_all_blank hafter rest
  rw [hgrammar]
  constructor
  · rintro ⟨-, hnumber, rest', hleads', hsays⟩
    rw [hleads'.unique hleads, hwords] at hsays
    exact ⟨hnumber, hsays⟩
  · rintro ⟨hnumber, hsays⟩
    exact ⟨hne, hnumber, _, hleads, hwords ▸ hsays⟩

/-- A line that starts with a comment prefix of one blank, which is found again behind it. -/
theorem blank_prefix_read :
    let line : Text := "  \u3000... .s stop x y".toList
    let rest : Text := ".s stop x y".toList
    let m : Marker := ⟨7, ".s".toList, .stop, some ['x']⟩
    IsLine line ∧ [' '] <+: line ∧ read [' '] 7 line = .marker m ∧
      Found [' '] line rest ∧ Says rest.words m := by
  intro line rest m
  have hline : IsLine line := by decide
  have hstart : [' '] <+: line := ⟨line.tail, rfl⟩
  have hleads : Leads [' '] line (' ' :: rest) := ⟨[' ', '\u3000'], by decide, rfl⟩
  have hfound : Found [' '] line rest := ⟨[' '], ['\u3000'], [' '], by decide, by decide, by decide, rfl⟩
  have hsays : Says (words (' ' :: rest)) m :=
    ⟨rfl, ⟨"stop".toList, rfl, by decide⟩, rfl, by decide, by decide, fun h => nomatch h⟩
  obtain ⟨hread, hwherever⟩ := read_eq_marker_iff hline 7 m
  have hmarker := hread.2 ⟨List.cons_ne_nil _ _, rfl, _, hleads, hsays⟩
  exact ⟨hline, hstart, hmarker, hfound,
    ((hwherever rest (List.cons_ne_nil _ _) hstart hfound).1 hmarker).2⟩

end Marker

end TrackedSections
