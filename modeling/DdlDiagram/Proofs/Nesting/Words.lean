import DdlDiagram.Proofs.Nesting.Pieces
import DdlDiagram.Proofs.Token.Runs

/-!
# Words on their own

The words of a text are its pieces between blanks, without those that are empty. A text is its words
with gaps around them, which is all that is lost of it. Each word is a word on its own, and nothing
is open behind it if another one follows, so words can be joined again with any gap.
-/

namespace DdlDiagram

variable {s : Nesting} {t u w g last : Text} {ws : List Text} {c : Char}

namespace Nesting

/-- A blank is neither quote nor parenthesis. -/
theorem plain_of_isBlank (hc : isBlank c = true) : isQuote c = false ∧ c ≠ '(' ∧ c ≠ ')' := by
  refine ⟨Token.not_isQuote_of_isBlank hc, ?_, ?_⟩
  · exact Text.ne_of_isBlank hc rfl
  · exact Text.ne_of_isBlank hc rfl

/-- A blank is at top level where nothing is open. -/
theorem atTop_iff_of_isBlank (hc : isBlank c = true) : s.atTop c = true ↔ s = top :=
  atTop_iff_eq_top (plain_of_isBlank hc)

/-- The pieces hold all characters but those at which the text is cut. -/
theorem length_flatten_pieces (cut : Char → Bool) (t : Text) :
    (pieces cut top t).flatten.length + (pieces cut top t).length = t.length + 1 := by
  induction t using pieces_induction cut with
  | whole t hwhole => simp [hwhole]
  | cons u c v _ _ _ hpieces ih =>
      rw [hpieces]
      simp only [List.flatten_cons, List.length_append, List.length_cons]
      omega

end Nesting

namespace Text

open Nesting

/-- A text is a single word exactly if it is not empty and one piece. -/
theorem words_eq_singleton_iff : words t = [t] ↔ t ≠ [] ∧ pieces isBlank top t = [t] := by
  constructor
  · intro h
    have hflatten : (pieces isBlank top t).flatten = t := by
      have hfilter := congrArg List.flatten h
      rwa [words, List.flatten_filter_not_isEmpty, List.flatten_singleton] at hfilter
    have hlength := length_flatten_pieces isBlank t
    rw [hflatten, Nat.add_left_cancel_iff] at hlength
    obtain ⟨piece, hpieces⟩ := List.length_eq_one_iff.1 hlength
    rw [hpieces, List.flatten_singleton] at hflatten
    exact ⟨ne_nil_of_mem_words (h ▸ List.mem_singleton_self t : t ∈ words t), hflatten ▸ hpieces⟩
  · rintro ⟨hne, h⟩
    rw [words, h, List.filter_cons_of_pos (by simpa using hne), List.filter_nil]

/-- A word has no blank where nothing is open. -/
theorem hasNoCut_of_words_eq_singleton (h : words t = [t]) : HasNoCut isBlank t :=
  (pieces_eq_singleton_iff fun _ hc => plain_of_isBlank hc).1 (words_eq_singleton_iff.1 h).2

theorem exists_cons_of_words_eq_singleton (h : words w = [w]) :
    ∃ c rest, w = c :: rest ∧ isBlank c = false := by
  obtain ⟨c, rest, rfl⟩ := List.exists_cons_of_ne_nil (words_eq_singleton_iff.1 h).1
  exact ⟨c, rest, rfl, hasNoCut_of_words_eq_singleton h [] c rest rfl rfl⟩

/-- A blank in front of a text is in none of its words. -/
theorem words_blank_cons (hc : isBlank c = true) (t : Text) : words (c :: t) = words t := by
  have hat : (top.afterText []).atTop c = true := (atTop_iff_of_isBlank hc).2 rfl
  exact words_append_cons hat hc t

theorem words_gap_append (hg : IsGap g) (t : Text) : words (g ++ t) = words t := by
  induction g with
  | nil => rfl
  | cons c rest ih =>
      obtain ⟨hc, hrest⟩ := isGap_cons.1 hg
      rw [List.cons_append, words_blank_cons hc, ih hrest]

/-- A word ends where a blank follows it. -/
theorem words_append_of_startsBlank (hw : words w = [w]) (hclosed : top.afterText w = top)
    (ht : t = [] ∨ t.startsBlank = true) : words (w ++ t) = w :: words t := by
  rcases ht with rfl | hblank
  · rw [List.append_nil, hw]
    rfl
  · cases t with
    | nil => cases hblank
    | cons c t =>
        have hat := (atTop_iff_of_isBlank hblank).2 hclosed
        rw [words_append_cons hat hblank, hw, words_blank_cons hblank, List.singleton_append]

/-- What holds of the empty text and of single words holds of all texts, if with a text it holds of
the same text behind a blank and behind a word and a blank. -/
theorem words_induction {motive : Text → Prop} (nil : motive [])
    (word : ∀ w, words w = [w] → motive w)
    (blank : ∀ c t, isBlank c = true → words (c :: t) = words t → motive t → motive (c :: t))
    (cons : ∀ w c t, words w = [w] → top.afterText w = top → isBlank c = true →
      words (w ++ c :: t) = w :: words t → motive t → motive (w ++ c :: t))
    (t : Text) : motive t := by
  induction t using pieces_induction isBlank with
  | whole t hwhole =>
      by_cases hne : t = []
      · exact hne ▸ nil
      · exact word t (words_eq_singleton_iff.2 ⟨hne, hwhole⟩)
  | cons u c v hwhole htop hc _ ih =>
      have hwords := words_append_cons htop hc v
      by_cases hne : u = []
      · subst hne
        exact blank c v hc hwords ih
      · have hword := words_eq_singleton_iff.2 ⟨hne, hwhole⟩
        rw [hword, List.singleton_append] at hwords
        exact cons u c v hword ((atTop_iff_of_isBlank hc).1 htop) hc hwords ih

/-- A word read alone is one word. -/
theorem words_of_mem_words (h : w ∈ words t) : words w = [w] := by
  induction t using words_induction with
  | nil => exact nomatch h
  | word u hu =>
      rw [hu, List.mem_singleton] at h
      rwa [h]
  | blank c t _ hwords ih =>
      rw [hwords] at h
      exact ih h
  | cons u c t hu _ _ hwords ih =>
      rw [hwords, List.mem_cons] at h
      rcases h with rfl | hmem
      · exact hu
      · exact ih hmem

/-- Nothing is open behind a word that another one follows. -/
theorem afterText_of_mem_dropLast_words (h : w ∈ (words t).dropLast) : top.afterText w = top := by
  induction t using words_induction with
  | nil => exact nomatch h
  | word u hu =>
      rw [hu] at h
      exact nomatch h
  | blank c t _ hwords ih =>
      rw [hwords] at h
      exact ih h
  | cons u c t _ hclosed _ hwords ih =>
      rw [hwords] at h
      by_cases hrest : words t = []
      · rw [hrest] at h
        exact nomatch h
      · rw [List.dropLast_cons_of_ne_nil hrest, List.mem_cons] at h
        rcases h with rfl | hmem
        · exact hclosed
        · exact ih hmem

/-- Words that leave nothing open are the words of their join with any gap. -/
theorem words_join_gap (hws : ∀ w ∈ ws, words w = [w])
    (hclosed : ∀ w ∈ ws.dropLast, top.afterText w = top) (hg : IsGap g) (hne : g ≠ []) :
    words (join g ws) = ws := by
  induction ws with
  | nil => rfl
  | cons w others ih =>
      obtain ⟨hw, hothers⟩ := List.forall_mem_cons.1 hws
      by_cases hrest : others = []
      · rw [hrest]
        exact hw
      · rw [List.dropLast_cons_of_ne_nil hrest, List.forall_mem_cons] at hclosed
        obtain ⟨c, blanks, rfl⟩ := List.exists_cons_of_ne_nil hne
        obtain ⟨hc, hblanks⟩ := isGap_cons.1 hg
        have hat := (atTop_iff_of_isBlank hc).2 hclosed.1
        rw [join_cons_of_ne_nil hrest, List.append_assoc, List.cons_append,
          words_append_cons hat hc, hw, words_gap_append hblanks, ih hothers hclosed.2,
          List.singleton_append]

end Text

structure SpacedWord where
  gap : Text
  word : Text
  deriving DecidableEq, Repr

variable {row : List SpacedWord}

def SpacedWord.text (row : List SpacedWord) : Text := row.flatMap fun p => p.gap ++ p.word

/-- What a text consists of: its words, each behind its gap, and a gap at the end. -/
structure Text.IsSpaced (t : Text) (row : List SpacedWord) (last : Text) : Prop where
  words : row.map (·.word) = words t
  text : t = SpacedWord.text row ++ last
  isGap : ∀ p ∈ row, IsGap p.gap
  isGap_last : IsGap last
  /-- Between two words there is a blank at least. -/
  gap_ne_nil : ∀ p ∈ row.tail, p.gap ≠ []

namespace Text

open Nesting

/-- A blank in front of a text makes the first gap longer, or the last one if there is no word. -/
theorem IsSpaced.exists_blank_cons (h : t.IsSpaced row last) (hc : isBlank c = true) :
    ∃ row' last', Text.IsSpaced (c :: t) row' last' ∧ ∀ p ∈ row', p.gap ≠ [] := by
  have hwords := words_blank_cons hc t
  cases row with
  | nil =>
      refine ⟨[], c :: last, ⟨?_, ?_, ?_, ?_, ?_⟩, by simp⟩
      · rw [hwords, ← h.words]
      · rw [h.text]
        rfl
      · simp
      · exact isGap_cons.2 ⟨hc, h.isGap_last⟩
      · simp
  | cons p row =>
      obtain ⟨hgap, hgaps⟩ := List.forall_mem_cons.1 h.isGap
      refine ⟨⟨c :: p.gap, p.word⟩ :: row, last, ⟨?_, ?_, ?_, h.isGap_last, h.gap_ne_nil⟩, ?_⟩
      · rw [hwords, ← h.words]
        rfl
      · rw [h.text]
        rfl
      · exact List.forall_mem_cons.2 ⟨isGap_cons.2 ⟨hc, hgap⟩, hgaps⟩
      · exact List.forall_mem_cons.2 ⟨List.cons_ne_nil c p.gap, h.gap_ne_nil⟩

/-- A word may stand in front of a text that has a gap in front of each of its words. -/
theorem IsSpaced.word_append (h : t.IsSpaced row last) (hne : ∀ p ∈ row, p.gap ≠ [])
    (hwords : Text.words (w ++ t) = w :: Text.words t) :
    Text.IsSpaced (w ++ t) (⟨[], w⟩ :: row) last where
  words := by rw [hwords, ← h.words, List.map_cons]
  text := by
    rw [h.text]
    simp [SpacedWord.text]
  isGap := List.forall_mem_cons.2 ⟨isGap_nil, h.isGap⟩
  isGap_last := h.isGap_last
  gap_ne_nil := hne

/-- Words are all that a text has besides gaps. -/
theorem exists_isSpaced (t : Text) : ∃ row last, t.IsSpaced row last := by
  induction t using words_induction with
  | nil => exact ⟨[], [], rfl, rfl, by simp, isGap_nil, by simp⟩
  | word w hw =>
      refine ⟨[⟨[], w⟩], [], hw.symm, ?_, ?_, isGap_nil, ?_⟩ <;> simp [SpacedWord.text]
  | blank c t hc _ ih =>
      obtain ⟨row, last, h⟩ := ih
      obtain ⟨row', last', h', -⟩ := h.exists_blank_cons hc
      exact ⟨row', last', h'⟩
  | cons w c t _ _ hc hwords ih =>
      obtain ⟨row, last, h⟩ := ih
      obtain ⟨row', last', h', hgaps⟩ := h.exists_blank_cons hc
      refine ⟨⟨[], w⟩ :: row', last', h'.word_append hgaps ?_⟩
      rw [hwords, words_blank_cons hc]

/-- A text is its words with gaps around them. Each word starts with a character that is not blank
and is a word on its own, nothing is open behind it if another one follows, and joined with any gap
the words are the same again. -/
theorem isSpaced_and_words_join (t : Text) :
    (∃ row last, t.IsSpaced row last) ∧
      (∀ w ∈ words t, (∃ c rest, w = c :: rest ∧ isBlank c = false) ∧ words w = [w]) ∧
      (∀ w ∈ (words t).dropLast, top.afterText w = top) ∧
      ∀ g, g ≠ [] → IsGap g → words (join g (words t)) = words t := by
  have hclosed : ∀ w ∈ (words t).dropLast, top.afterText w = top :=
    fun _ hmem => afterText_of_mem_dropLast_words hmem
  refine ⟨exists_isSpaced t, ?_, hclosed, ?_⟩
  · intro w hmem
    have hw := words_of_mem_words hmem
    exact ⟨exists_cons_of_words_eq_singleton hw, hw⟩
  · intro g hne hg
    exact words_join_gap (fun _ hmem => words_of_mem_words hmem) hclosed hg hne

/-- Words with a parenthesis that closes nothing, with blanks in quotes and in parentheses, and with
a group left open that takes the blanks behind it. -/
def unclosedLine : Text := " a)\u00a0\t`b c`(d e) 'f\tg' (h  ".toList

def unclosedWords : List Text :=
  ["a)".toList, "`b c`(d e)".toList, "'f\tg'".toList, "(h  ".toList]

theorem isSpaced_and_words_join_unclosedLine :
    (∃ row last, unclosedLine.IsSpaced row last) ∧
      "(h  ".toList ∈ words unclosedLine ∧ words "(h  ".toList = ["(h  ".toList] ∧
      "`b c`(d e)".toList ∈ (words unclosedLine).dropLast ∧
      top.afterText "`b c`(d e)".toList = top ∧
      ['\u3000', '\n'] ≠ [] ∧ IsGap ['\u3000', '\n'] ∧
      words (join ['\u3000', '\n'] unclosedWords) = unclosedWords := by
  obtain ⟨hspaced, hwords, hclosed, hjoin⟩ := isSpaced_and_words_join unclosedLine
  have heq : words unclosedLine = unclosedWords := by decide +kernel
  have hlast : "(h  ".toList ∈ words unclosedLine := by simp [heq, unclosedWords]
  have hgroup : "`b c`(d e)".toList ∈ (words unclosedLine).dropLast := by
    simp [heq, unclosedWords]
  have hgap : IsGap ['\u3000', '\n'] := isGap_cons.2 ⟨by decide, isGap_feed⟩
  have hne : ['\u3000', '\n'] ≠ [] := List.cons_ne_nil _ _
  refine ⟨hspaced, hlast, (hwords _ hlast).2, hgroup, hclosed _ hgroup, hne, hgap, ?_⟩
  exact heq ▸ hjoin _ hne hgap

end Text
end DdlDiagram
