import DdlDiagram.Layout
import DdlDiagram.Proofs.Token.Trimmed

/-!
# Reading back what was laid out

A layout writes each token behind a gap that keeps it apart from the one before, wherever the
two could be taken for one. So reading a layout gives the tokens it was made from, and each of
them is spaced exactly if its gap is not empty. Where two running tokens meet, that gap is
empty for the same atoms as in the text that was laid out; everywhere else a layout does not
look at the spacing. A layout is therefore the same for the atoms that are read back.
-/

namespace DdlDiagram

variable {t rest g : Text} {token following : Token} {atom : Atom} {atoms' : List Atom}
variable {indent indent' depth : Nat} {previous : Token}

namespace Token

theorem endsAt_nil (token : Token) : EndsAt token [] := by
  cases token with
  | word => rfl
  | quoted => exact fun c hc => by simp at hc
  | lineComment => exact .inl rfl
  | _ => trivial

/-- A token ends in front of a gap; a line comment needs one that starts a new line. -/
theorem Whole.endsAt_gap_append (h : Whole token) (hg : Text.IsGap g) (hne : g ≠ [])
    (hline : ∀ w, token = .lineComment w → g.head? = some '\n') (rest : Text) :
    EndsAt token (g ++ rest) := by
  cases g with
  | nil => exact absurd rfl hne
  | cons c g =>
      have hc := (Text.isGap_cons.1 hg).1
      cases h with
      | word =>
          change endsWord (c :: (g ++ rest)) = true
          simp [endsWord, hc]
      | quoted hquote =>
          intro d hd heq
          obtain rfl := Option.some.inj hd
          obtain rfl := Option.some.inj heq
          rw [not_isBlank_of_isQuote hquote] at hc
          contradiction
      | lineComment => exact .inr (hline _ rfl)
      | _ => trivial

/-- A token whose source starts with a quote is a quoted run. -/
theorem IsRead.eq_quoted {c : Char} {u : Text} (h : IsRead token) (hsource : token.source = c :: u)
    (hc : isQuote c = true) : token = .quoted (c :: u) := by
  have hother : ∀ d v, (d :: v : Text) = c :: u → isQuote d = false → False := by
    intro d v heq hd
    obtain ⟨rfl, -⟩ := List.cons.inj heq
    rw [hc] at hd
    contradiction
  rcases h with h | h
  · cases h with
    | @word t _ hrun =>
        obtain rfl : t = c :: u := hsource
        have hbreak := hrun.isBreak_eq_false c List.mem_cons_self
        simp [isBreak, hc] at hbreak
    | quoted => exact congrArg Token.quoted hsource
    | _ => exact (hother _ _ hsource rfl).elim
  · cases h with
    | quoted => exact congrArg Token.quoted hsource
    | blockComment => exact (hother _ _ hsource rfl).elim

/-- A token ends in front of one that it may touch. -/
theorem MayTouch.endsAt (h : MayTouch token following) (hwhole : Whole token)
    (hread : IsRead following) (rest : Text) : EndsAt token (following.source ++ rest) := by
  cases hwhole with
  | word =>
      change endsWord (following.source ++ rest) = true
      rcases hread with hread | hread
      · cases hread with
        | word => exact absurd h id
        | quoted hquote => simp [source, endsWord, hquote]
        | _ => rfl
      · cases hread with
        | quoted hquote => simp [source, endsWord, hquote]
        | blockComment => rfl
  | @quoted quote _ hquote _ =>
      obtain ⟨c, u, hsource, -⟩ := hread.exists_source_eq_cons
      intro d hd heq
      rw [hsource] at hd
      obtain rfl := Option.some.inj hd
      obtain rfl : quote = c := Option.some.inj heq
      rw [hread.eq_quoted hsource hquote] at h
      exact h rfl
  | lineComment => exact absurd h (by cases following <;> exact id)
  | _ => trivial

theorem eq_lineComment_of_startsLineComment (h : startsLineComment t = true)
    (hnext : next? t = some (token, rest)) : ∃ w, token = lineComment w := by
  obtain ⟨u, rfl⟩ := eq_cons_of_startsLineComment h
  rw [(Reads.lineComment u).next?_eq, Option.some.injEq, Prod.mk.injEq] at hnext
  exact ⟨_, hnext.1.symm⟩

end Token

namespace Layout

theorem isGap_newLine (indent depth : Nat) : Text.IsGap (newLine indent depth) := by
  rw [newLine, Text.isGap_cons]
  refine ⟨rfl, ?_⟩
  split
  · exact Text.isGap_nil
  · intro c hc
    rw [List.eq_of_mem_replicate hc]
    rfl

theorem isGap_gapInLine (depth : Nat) (previous : Token) (atom : Atom) :
    Text.IsGap (gapInLine depth previous atom) := by
  unfold gapInLine
  repeat' split
  all_goals simp [Text.IsGap]

theorem isGap_gap (indent depth : Nat) (previous : Token) (atom : Atom) :
    Text.IsGap (gap indent depth previous atom) := by
  have hnewLine := isGap_newLine indent depth
  have hinLine := isGap_gapInLine depth previous atom
  unfold gap
  repeat' split
  all_goals first | assumption | simp

theorem head?_gap_lineComment (indent depth : Nat) (w : Text) (atom : Atom) :
    (gap indent depth (.lineComment w) atom).head? = some '\n' := by
  obtain ⟨token, spaced⟩ := atom
  cases token <;> rfl

theorem gap_ne_nil_of_lineComment {w : Text} (h : atom.token = .lineComment w) :
    gap indent depth previous atom ≠ [] := by
  obtain ⟨token, spaced⟩ := atom
  obtain rfl : token = .lineComment w := h
  cases previous <;> simp [gap, newLine]

/-- Tokens are written without a gap only where they may touch. -/
theorem mayTouch_of_gap_eq_nil (htouch : atom.spaced = false → previous.MayTouch atom.token)
    (h : gap indent depth previous atom = []) : previous.MayTouch atom.token := by
  obtain ⟨token, spaced⟩ := atom
  cases previous with
  | word s =>
      cases token with
      | word => exact htouch (by simpa [gap, gapInLine, breaksAfter] using h)
      | _ => trivial
  | quoted s =>
      cases token with
      | quoted => exact htouch (by simpa [gap, gapInLine, breaksAfter] using h)
      | _ => trivial
  | lineComment w =>
      have := head?_gap_lineComment indent depth w ⟨token, spaced⟩
      rw [h] at this
      contradiction
  | _ => trivial

/-- The spacing that a gap shows leads to the same gap, whatever the indentation. -/
theorem gap_spaced_eq (indent indent' depth : Nat) (previous : Token) (atom : Atom) :
    gap indent' depth previous ⟨atom.token, !(gap indent depth previous atom).isEmpty⟩ =
      gap indent' depth previous atom := by
  obtain ⟨token, spaced⟩ := atom
  cases previous <;> cases token <;> cases spaced <;>
    simp [gap, gapInLine, breaksAfter]

/-- The gap before an atom, of which there is none before the first one. -/
def gapBehind (indent depth : Nat) : Option Token → Atom → Text
  | none, _ => []
  | some token, atom => gap indent depth token atom

theorem write_cons (indent depth : Nat) (previous : Option Token) (atom : Atom)
    (rest : List Atom) :
    write indent depth previous (atom :: rest) = gapBehind indent depth previous atom ++
      (atom.token.source ++
        write indent (atom.token.depthAfter depth) (some atom.token) rest) := by
  rw [← List.append_assoc]
  cases previous <;> rfl

theorem isGap_gapBehind (indent depth : Nat) (previous : Option Token) (atom : Atom) :
    Text.IsGap (gapBehind indent depth previous atom) := by
  cases previous with
  | none => exact Text.isGap_nil
  | some token => exact isGap_gap indent depth token atom

def respace (indent depth : Nat) (previous : Option Token) : List Atom → List Atom
  | [] => []
  | atom :: rest =>
    ⟨atom.token, !(gapBehind indent depth previous atom).isEmpty⟩ ::
      respace indent (atom.token.depthAfter depth) (some atom.token) rest

/-- In front of the text of the atoms behind it, the source of the first atom reads as its
token. -/
theorem next?_source_append_write (depth : Nat) (h : Legible (atom :: atoms')) :
    Token.next? (atom.token.source ++ write indent depth (some atom.token) atoms') =
      some (atom.token, write indent depth (some atom.token) atoms') := by
  induction atoms' generalizing atom depth with
  | nil =>
      change Token.next? (_ ++ []) = some (_, [])
      rcases h.isRead_head with hwhole | hcut
      · exact hwhole.next?_append (Token.endsAt_nil _) rfl
      · rw [List.append_nil]
        exact hcut.next?_source
  | cons following others ih =>
      cases h with
      | cons hwhole htouch hrest =>
          have hnext := ih (following.token.depthAfter depth) hrest
          have hread := hrest.isRead_head
          rw [write_cons, gapBehind]
          have hgap := isGap_gap indent depth atom.token following
          cases hg : gap indent depth atom.token following with
          | nil =>
              have hmay := mayTouch_of_gap_eq_nil htouch hg
              rw [List.nil_append]
              refine hwhole.next?_append (hmay.endsAt hwhole hread _) ?_
              by_contra hline
              obtain ⟨w, hw⟩ :=
                Token.eq_lineComment_of_startsLineComment (Bool.not_eq_false _ ▸ hline) hnext
              exact gap_ne_nil_of_lineComment hw hg
          | cons c g =>
              rw [hg] at hgap
              refine hwhole.next?_append (hwhole.endsAt_gap_append hgap (by simp) ?_ _) ?_
              · intro w hw
                rw [← hg, hw]
                exact head?_gap_lineComment indent depth w following
              · have hc : c ≠ '-' := by
                  rintro rfl
                  exact absurd (Text.isGap_cons.1 hgap).1 (by decide)
                simp [Token.startsLineComment_cons, hc]

/-- Reading what was laid out gives the tokens back, spaced as the layout spaces them. -/
theorem atoms_write (h : Legible atoms') (indent depth : Nat) (previous : Option Token) :
    atoms (write indent depth previous atoms') = respace indent depth previous atoms' := by
  induction atoms' generalizing depth previous with
  | nil => exact atoms_of_isGap Text.isGap_nil
  | cons atom others ih =>
      rw [write_cons, atoms_append (isGap_gapBehind indent depth previous atom)
        (h.isRead_head.startsBlank_source_append _) (next?_source_append_write _ h), ih h.tail]
      rfl

theorem map_token_respace (indent depth : Nat) (previous : Option Token) (atoms' : List Atom) :
    (respace indent depth previous atoms').map (·.token) = atoms'.map (·.token) := by
  induction atoms' generalizing depth previous with
  | nil => rfl
  | cons atom rest ih => simp [respace, ih]

/-- A layout does not tell the atoms of another layout from those that were laid out there. -/
theorem write_respace (indent indent' depth : Nat) (previous : Option Token)
    (atoms' : List Atom) :
    write indent' depth previous (respace indent depth previous atoms') =
      write indent' depth previous atoms' := by
  induction atoms' generalizing depth previous with
  | nil => rfl
  | cons atom rest ih =>
      rw [respace, write_cons, write_cons, ih]
      cases previous with
      | none => rfl
      | some token => rw [gapBehind, gapBehind, gapBehind, gap_spaced_eq]

theorem gapBehind_trimmed (h : atom.token.IsRead) (indent depth : Nat)
    (previous : Option Token) :
    gapBehind indent depth previous atom.trimmed = gapBehind indent depth previous atom := by
  obtain ⟨token, spaced⟩ := atom
  rcases h with hwhole | hcut
  · rw [Atom.trimmed, hwhole.trimmed_eq]
  · cases previous with
    | none => rfl
    | some previous => cases hcut <;> cases previous <;> rfl

/-- Only the last token of a layout ends it, so trimming the layout is trimming the tokens. -/
theorem write_map_trimmed (h : Legible atoms') (indent depth : Nat) (previous : Option Token) :
    write indent depth previous (atoms'.map Atom.trimmed) =
      Text.trimEnd (write indent depth previous atoms') := by
  induction h generalizing depth previous with
  | nil => rfl
  | @last atom hread =>
      rw [List.map_singleton, write_cons, write_cons, gapBehind_trimmed hread]
      simp only [write, List.append_nil]
      rw [Text.trimEnd_append_of_not_isGap _ hread.not_isGap_source]
      exact congrArg _ (Token.source_trimmed _)
  | @cons atom following rest hwhole htouch hrest ih =>
      have hkeep : atom.trimmed.token = atom.token := hwhole.trimmed_eq
      have hbehind : ¬ Text.IsGap (write indent (atom.token.depthAfter depth) (some atom.token)
          (following :: rest)) := by
        rw [write_cons, Text.isGap_append, Text.isGap_append]
        exact fun hgap => hrest.isRead_head.not_isGap_source hgap.2.1
      rw [List.map_cons, write_cons, write_cons, gapBehind_trimmed (.inl hwhole), hkeep, ih,
        ← List.append_assoc, ← List.append_assoc, Text.trimEnd_append_of_not_isGap _ hbehind]

end Layout
end DdlDiagram
