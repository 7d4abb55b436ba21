import DdlDiagram.Proofs.Token.Legible

/-!
# Tokens and the gaps between them

Reading tokens loses nothing of a text. The text is the sources of its tokens in their order, with
a gap in front of each and one behind the last of them, and a token is marked as spaced exactly if
its gap is not empty. The blanks that a line comment loses are the start of the gap behind it.
Words are as long as they can be: nothing in a word ends one, and what stands behind it does.
-/

namespace DdlDiagram

variable {t rest g last w : Text} {token : Token}

structure Gapped where
  gap : Text
  atom : Atom
  deriving DecidableEq, Repr

variable {row : List Gapped}

def Gapped.text (row : List Gapped) : Text := row.flatMap fun p => p.gap ++ p.atom.token.source

/-- What a text consists of: its atoms, each behind its gap, and a gap at the end. -/
structure Text.ConsistsOf (t : Text) (row : List Gapped) (last : Text) : Prop where
  atoms : row.map (·.atom) = atoms t
  text : t = Gapped.text row ++ last
  isGap : ∀ p ∈ row, IsGap p.gap
  isGap_last : IsGap last

namespace Token

structure IsUnbroken (w : Text) : Prop where
  /-- It has no blank, no delimiter and no quote. -/
  isBreak_eq_false : ∀ c ∈ w, isBreak c = false
  /-- It has no mark that starts a comment. -/
  not_lineMark : ¬ "--".toList <:+: w
  not_blockMark : ¬ "/*".toList <:+: w

/-- A text that a word in front of it ends at: there is no text left, or it starts with a blank, a
delimiter, a quote or a comment. -/
def StopsWord (t : Text) : Prop :=
  t = [] ∨ (∃ c, t.head? = some c ∧ isBreak c = true) ∨ "--".toList <+: t ∨ "/*".toList <+: t

theorem stopsWord_iff_endsWord : StopsWord t ↔ endsWord t = true := by
  cases t with
  | nil => simp [StopsWord, endsWord]
  | cons c t =>
      simp [StopsWord, endsWord, isBreak, startsLineComment, startsBlockComment, or_assoc]

theorem IsWordRun.isUnbroken (h : IsWordRun w) : IsUnbroken w := by
  induction w with
  | nil => exact ⟨by simp, by simp, by simp⟩
  | cons c w ih =>
      have hrest := ih h.2
      have hc := h.1
      rw [← Bool.not_eq_true, ← stopsWord_iff_endsWord, StopsWord, not_or, not_or, not_or] at hc
      obtain ⟨-, -, hline, hblock⟩ := hc
      refine ⟨h.isBreak_eq_false, ?_, ?_⟩
      · rw [List.infix_cons_iff, not_or]
        exact ⟨hline, hrest.not_lineMark⟩
      · rw [List.infix_cons_iff, not_or]
        exact ⟨hblock, hrest.not_blockMark⟩

end Token

/-- Further blanks in front of a text that starts with one, or is empty, make no difference to its
atoms. -/
theorem atoms_gap_append (hg : Text.IsGap g) (h : t = [] ∨ t.startsBlank = true) :
    atoms (g ++ t) = atoms t := by
  cases t using Text.token_induction with
  | gap g' hg' => rw [atoms_of_isGap hg', atoms_of_isGap (Text.isGap_append.2 ⟨hg, hg'⟩)]
  | token g' token t rest hg' hblank hnext =>
      have hne : g' ≠ [] := by
        rintro rfl
        rcases h with hnil | hstart
        · obtain rfl : t = [] := hnil
          simp [Token.next?] at hnext
        · rw [List.nil_append, hblank] at hstart
          contradiction
      rw [← List.append_assoc, atoms_append (Text.isGap_append.2 ⟨hg, hg'⟩) hblank hnext,
        atoms_append hg' hblank hnext, List.isEmpty_eq_false_iff.2 hne,
        List.isEmpty_eq_false_iff.2 (List.append_ne_nil_of_right_ne_nil g hne)]

/-- A text starts with the source of its first token. What stands behind it has the atoms of the
rest, although a line comment takes the blanks behind it along. -/
theorem exists_behind_of_next? (hblank : t.startsBlank = false)
    (hnext : Token.next? t = some (token, rest)) :
    ∃ behind, t = token.source ++ behind ∧ atoms behind = atoms rest ∧
      ∀ w, token = .word w → Token.endsWord behind = true := by
  obtain ⟨⟨lost, hlost, hsplit⟩, hread⟩ := Token.next?_spec hblank hnext
  by_cases hline : ∃ w, token = .lineComment w
  · obtain ⟨w, rfl⟩ := hline
    rw [List.append_assoc] at hsplit
    refine ⟨lost ++ rest, hsplit, atoms_gap_append hlost ?_, nofun⟩
    rcases hread with ⟨-, rfl | hhead⟩ | ⟨hcut, -⟩
    · exact .inl rfl
    · rw [Text.startsBlank_eq_head?, hhead]
      exact .inr rfl
    · exact nomatch hcut
  · refine ⟨rest, Token.source_append_of_next? hnext fun w hw => hline ⟨w, hw⟩, rfl, ?_⟩
    rintro w rfl
    rcases hread with ⟨-, hend⟩ | ⟨hcut, -⟩
    · exact hend
    · exact nomatch hcut

/-- Every text is a gap, or a gap, the source of its first token and a text with the other atoms. -/
theorem Text.source_induction {motive : Text → Prop}
    (gap : ∀ g, IsGap g → motive g)
    (token : ∀ g token rest, IsGap g → token.IsRead →
      (∀ w, token = .word w → Token.endsWord rest = true) →
      atoms (g ++ (token.source ++ rest)) = ⟨token, !g.isEmpty⟩ :: atoms rest →
      motive rest → motive (g ++ (token.source ++ rest)))
    (t : Text) : motive t := by
  induction hn : t.length using Nat.strongRecOn generalizing t with
  | ind n ih =>
      cases t using Text.token_induction with
      | gap _ hg => exact gap _ hg
      | token g found u rest hg hblank hnext =>
          obtain ⟨behind, rfl, hatoms, hword⟩ := exists_behind_of_next? hblank hnext
          have hread := Token.isRead_of_next? hblank hnext
          have hshorter : behind.length < n := by
            obtain ⟨c, u, hsource, -⟩ := hread.exists_source_eq_cons
            rw [← hn, hsource]
            simp only [List.length_append, List.length_cons]
            omega
          refine token g found behind hg hread hword ?_ (ih behind.length hshorter behind rfl)
          rw [hatoms]
          exact atoms_append hg hblank hnext

/-- A text as its atoms, with nothing but gaps between them. -/
structure Text.IsResolved (t : Text) (row : List Gapped) (last : Text) : Prop
    extends t.ConsistsOf row last where
  /-- An atom is spaced exactly if there are blanks in front of it. -/
  spaced : ∀ p ∈ row, p.atom.spaced = true ↔ p.gap ≠ []
  /-- No token starts with a blank. -/
  source : ∀ p ∈ row, ∃ c u, p.atom.token.source = c :: u ∧ isBlank c = false
  /-- Nothing in a word ends one, and what stands behind a word does. -/
  word (before : List Gapped) (p : Gapped) (behind : List Gapped) (w : Text) :
    row = before ++ p :: behind → p.atom.token = .word w →
      Token.IsUnbroken w ∧ Token.StopsWord (Gapped.text behind ++ last)

theorem Text.IsResolved.of_isGap (hg : IsGap g) : g.IsResolved [] g where
  atoms := (atoms_of_isGap hg).symm
  text := rfl
  isGap := by simp
  isGap_last := hg
  spaced := by simp
  source := by simp
  word before := by simp

theorem Text.IsResolved.cons (h : rest.IsResolved row last) (hg : IsGap g) (hread : token.IsRead)
    (hword : ∀ w, token = .word w → Token.endsWord rest = true)
    (hatoms : DdlDiagram.atoms (g ++ (token.source ++ rest)) =
      ⟨token, !g.isEmpty⟩ :: DdlDiagram.atoms rest) :
    (g ++ (token.source ++ rest)).IsResolved (⟨g, token, !g.isEmpty⟩ :: row) last where
  atoms := by rw [hatoms, ← h.atoms, List.map_cons]
  text := by
    rw [h.text]
    simp [Gapped.text]
  isGap := List.forall_mem_cons.2 ⟨hg, h.isGap⟩
  isGap_last := h.isGap_last
  spaced := List.forall_mem_cons.2 ⟨by simp, h.spaced⟩
  source := List.forall_mem_cons.2 ⟨hread.exists_source_eq_cons, h.source⟩
  word before p behind w hsplit hw := by
    cases before with
    | nil =>
        obtain ⟨rfl, rfl⟩ := List.cons.inj hsplit
        obtain rfl : token = .word w := hw
        have hstop := Token.stopsWord_iff_endsWord.2 (hword w rfl)
        rw [h.text] at hstop
        exact ⟨hread.isWordRun.isUnbroken, hstop⟩
    | cons first before => exact h.word before p behind w (List.cons.inj hsplit).2 hw

/-- Reading tokens loses nothing of a text but the form of its gaps. -/
theorem Text.exists_isResolved (t : Text) : ∃ row last, t.IsResolved row last := by
  induction t using Text.source_induction with
  | gap g hg => exact ⟨[], g, .of_isGap hg⟩
  | token g token rest hg hread hword hatoms ih =>
      obtain ⟨row, last, h⟩ := ih
      exact ⟨_, last, h.cons hg hread hword hatoms⟩

end DdlDiagram
