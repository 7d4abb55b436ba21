import DdlDiagram.Proofs.Layout.Fidelity
import DdlDiagram.Proofs.Layout.Placed
import DdlDiagram.Proofs.Token.Gapped

/-!
# Lines of a layout

Every gap of a layout is known from the tokens around it and the depth between them. So the lines
of a layout are known from its tokens: a table body has one line for each of its declarations, its
last parenthesis has a line of its own, and what lies deeper stays on one line. No line ends in a
space, unless the end of the line belongs to a quoted run or a block comment.
-/

namespace DdlDiagram

variable {t g front back : Text} {token previous : Token} {row before behind : List Gapped}
variable {atom : Atom} {atoms' : List Atom} {p q : Gapped}

namespace Gapped

/-- The depth behind a row of atoms at the start of a text. -/
def depth (row : List Gapped) : Nat := Layout.depthBehind 0 (row.map (·.atom))

theorem text_cons (p : Gapped) (row : List Gapped) :
    text (p :: row) = p.gap ++ (p.atom.token.source ++ text row) := by
  simp [text]

end Gapped

namespace Layout

/-- How a text goes on where a line break is due: it ends, or a line comment follows on the same
line, or there is a new line. The new line is not indented in front of a token that ends something.
-/
def BreaksLine (indent : Nat) : List Gapped → Prop
  | [] => True
  | p :: _ =>
    (p.gap = [' '] ∧ ∃ w, p.atom.token = .lineComment w) ∨
      p.gap = '\n' :: List.replicate
        (if p.atom.token ∈ [.closeParen, .comma, .semicolon] then 0 else indent) ' '

/-- The form of a layout, told from its tokens and the gaps between them. -/
structure IsLaidOut (indent : Nat) (row : List Gapped) : Prop where
  /-- A line break is due behind the parenthesis that opens a table body, and behind a comma that
  ends a declaration. -/
  breaks (before : List Gapped) (p : Gapped) (behind : List Gapped) :
    row = before ++ p :: behind → Gapped.depth (before ++ [p]) = 1 →
      p.atom.token = .openParen ∨ p.atom.token = .comma → BreaksLine indent behind
  /-- The parenthesis that closes a table body starts its line. -/
  closes (before : List Gapped) (p : Gapped) (behind : List Gapped) :
    row = before ++ p :: behind → Gapped.depth before = 1 → p.atom.token = .closeParen →
      (Gapped.text before ++ p.gap).getLast? = some '\n'
  /-- Deeper than a table body only line comments and semicolons end a line. -/
  stays (before : List Gapped) (p q : Gapped) (behind : List Gapped) :
    row = before ++ p :: q :: behind → 2 ≤ Gapped.depth (before ++ [p]) → '\n' ∈ q.gap →
      p.atom.token = .semicolon ∨ ∃ w, p.atom.token = .lineComment w
  /-- Where a line ends in a space, both the space and the line feed stand within a quoted run or a
  block comment. -/
  ends (front back : Text) : Gapped.text row = front ++ ' ' :: '\n' :: back →
    ∃ before p behind inside others, row = before ++ p :: behind ∧
      ((∃ w, p.atom.token = .quoted w) ∨ ∃ w, p.atom.token = .blockComment w) ∧
      p.atom.token.source = inside ++ ' ' :: '\n' :: others ∧
      front = Gapped.text before ++ (p.gap ++ inside)
  /-- There are no blanks around the text. -/
  startsBlank : (Gapped.text row).startsBlank = false
  trimEnd : (Gapped.text row).trimEnd = Gapped.text row

/-- Behind a parenthesis or a comma that a line break is due behind. -/
theorem breaksLine_gap (h : previous = .openParen ∨ previous = .comma) (indent : Nat)
    (hgap : p.gap = gap indent 1 previous p.atom) (behind : List Gapped) :
    BreaksLine indent (p :: behind) := by
  obtain ⟨found, token, spaced⟩ := p
  rcases h with rfl | rfl
  · cases token <;> simp_all [BreaksLine, gap, breaksAfter, newLine]
  · cases token <;> simp_all [BreaksLine, gap, breaksAfter, newLine]

theorem getLast?_gap_closeParen {indent : Nat} (h : atom.token = .closeParen) :
    (gap indent 1 previous atom).getLast? = some '\n' := by
  obtain ⟨token, spaced⟩ := atom
  obtain rfl : token = .closeParen := h
  cases previous <;> rfl

theorem feed_not_mem_gapInLine {depth : Nat} (hdepth : depth ≠ 0) (previous : Token) (atom : Atom) :
    '\n' ∉ gapInLine depth previous atom := by
  obtain ⟨token, spaced⟩ := atom
  cases previous <;> cases token <;> cases spaced <;> simp [gapInLine, hdepth]

theorem of_feed_mem_gap {indent depth : Nat} (hdepth : 2 ≤ depth)
    (h : '\n' ∈ gap indent depth previous atom) :
    previous = .semicolon ∨ ∃ w, previous = .lineComment w := by
  have hinLine := feed_not_mem_gapInLine (by omega : depth ≠ 0) previous atom
  have hbreaks : breaksAfter depth previous = false := by
    simp [breaksAfter, show depth ≠ 1 by omega]
  obtain ⟨token, spaced⟩ := atom
  cases previous <;> cases token <;> simp_all [gap]

/-- In a gap no space stands in front of a line feed. -/
def FeedsFirst (t : Text) : Prop := t.Pairwise fun c d => c = ' ' → d ≠ '\n'

theorem feedsFirst_newLine (indent depth : Nat) : FeedsFirst (newLine indent depth) := by
  rw [newLine, FeedsFirst, List.pairwise_cons]
  refine ⟨by simp, ?_⟩
  split
  · exact .nil
  · exact List.pairwise_replicate.2 (.inr (by simp))

theorem feedsFirst_gapInLine (depth : Nat) (previous : Token) (atom : Atom) :
    FeedsFirst (gapInLine depth previous atom) := by
  unfold gapInLine
  repeat' split
  all_goals simp [FeedsFirst]

theorem feedsFirst_gap (indent depth : Nat) (previous : Token) (atom : Atom) :
    FeedsFirst (gap indent depth previous atom) := by
  have hnewLine := feedsFirst_newLine indent depth
  have hinLine := feedsFirst_gapInLine depth previous atom
  unfold gap
  repeat' split
  all_goals first | assumption | simp [FeedsFirst]

theorem feedsFirst_gapBehind (indent depth : Nat) (previous : Option Token) (atom : Atom) :
    FeedsFirst (gapBehind indent depth previous atom) := by
  cases previous with
  | none => exact .nil
  | some token => exact feedsFirst_gap indent depth token atom

theorem FeedsFirst.ne_append (h : FeedsFirst g) : g ≠ front ++ ' ' :: '\n' :: back := by
  rintro rfl
  have htail := (List.pairwise_append.1 h).2.1
  exact (List.pairwise_cons.1 htail).1 '\n' List.mem_cons_self rfl rfl

/-- The atoms of a layout as they are read back, each behind its gap. -/
def gapped (indent depth : Nat) (previous : Option Token) : List Atom → List Gapped
  | [] => []
  | atom :: rest =>
    ⟨gapBehind indent depth previous atom, atom.token,
        !(gapBehind indent depth previous atom).isEmpty⟩ ::
      gapped indent (atom.token.depthAfter depth) (some atom.token) rest

theorem text_gapped (indent depth : Nat) (previous : Option Token) (atoms' : List Atom) :
    Gapped.text (gapped indent depth previous atoms') = write indent depth previous atoms' := by
  induction atoms' generalizing depth previous with
  | nil => rfl
  | cons atom rest ih => rw [gapped, Gapped.text_cons, ih, write_cons]

theorem map_atom_gapped (indent depth : Nat) (previous : Option Token) (atoms' : List Atom) :
    (gapped indent depth previous atoms').map (·.atom) = respace indent depth previous atoms' := by
  induction atoms' generalizing depth previous with
  | nil => rfl
  | cons atom rest ih => rw [gapped, List.map_cons, ih, respace]

theorem gapBehind_spaced_eq (indent depth : Nat) (previous : Option Token) (atom : Atom) :
    gapBehind indent depth previous
        ⟨atom.token, !(gapBehind indent depth previous atom).isEmpty⟩ =
      gapBehind indent depth previous atom := by
  cases previous with
  | none => rfl
  | some token => exact gap_spaced_eq indent indent depth token atom

/-- The gap of an atom is the one that a layout makes for it, as it is read back, behind the atoms
in front of it. -/
theorem gap_of_gapped_eq_append {indent depth : Nat} {previous : Option Token}
    (h : gapped indent depth previous atoms' = before ++ q :: behind) :
    q.gap = gapBehind indent (depthBehind depth (before.map (·.atom)))
      (tokenBehind previous (before.map (·.atom))) q.atom := by
  induction atoms' generalizing depth previous before with
  | nil => simp [gapped] at h
  | cons atom rest ih =>
      cases before with
      | nil =>
          obtain ⟨rfl, -⟩ := List.cons.inj h
          exact (gapBehind_spaced_eq indent depth previous atom).symm
      | cons first before =>
          obtain ⟨rfl, hrest⟩ := List.cons.inj h
          have hgap := ih hrest
          exact hgap

theorem exists_gap_eq_of_mem {indent depth : Nat} {previous : Option Token}
    (h : p ∈ gapped indent depth previous atoms') :
    ∃ depth previous, p.gap = gapBehind indent depth previous p.atom := by
  obtain ⟨before, behind, hrow⟩ := List.append_of_mem h
  exact ⟨_, _, gap_of_gapped_eq_append hrow⟩

/-- Between two neighbours, that is the gap at the depth behind the first of them. -/
theorem gap_of_gapped_eq_append_cons {indent : Nat}
    (h : gapped indent 0 none atoms' = before ++ p :: q :: behind) :
    q.gap = gap indent (Gapped.depth (before ++ [p])) p.atom.token q.atom := by
  rw [List.append_cons] at h
  have hgap := gap_of_gapped_eq_append h
  have htoken : tokenBehind none ((before ++ [p]).map (·.atom)) = some p.atom.token := by
    simp [tokenBehind]
  rwa [htoken] at hgap

/-- Where a line break is due, the gap of the next atom breaks the line. -/
theorem breaksLine_of_gapped_eq_append {indent : Nat}
    (h : gapped indent 0 none atoms' = before ++ p :: behind)
    (hdepth : Gapped.depth (before ++ [p]) = 1)
    (hp : p.atom.token = .openParen ∨ p.atom.token = .comma) : BreaksLine indent behind := by
  cases behind with
  | nil => trivial
  | cons q behind =>
      have hgap := gap_of_gapped_eq_append_cons h
      rw [hdepth] at hgap
      exact breaksLine_gap hp indent hgap behind

/-- The gap in front of the parenthesis that closes a table body ends a line. -/
theorem getLast?_of_gapped_eq_append {indent : Nat}
    (h : gapped indent 0 none atoms' = before ++ p :: behind) (hdepth : Gapped.depth before = 1)
    (hp : p.atom.token = .closeParen) : (Gapped.text before ++ p.gap).getLast? = some '\n' := by
  rcases List.eq_nil_or_concat before with rfl | ⟨others, previous, rfl⟩
  · exact absurd hdepth (by decide)
  · rw [List.concat_eq_append] at h hdepth ⊢
    rw [List.append_assoc, List.singleton_append] at h
    have hgap := gap_of_gapped_eq_append_cons h
    rw [hdepth] at hgap
    rw [List.getLast?_append, hgap, getLast?_gap_closeParen hp]
    rfl

/-- Nothing stands before the first token of a layout. -/
theorem startsBlank_write (h : Legible atoms') (indent depth : Nat) :
    (write indent depth none atoms').startsBlank = false := by
  cases atoms' with
  | nil => rfl
  | cons atom rest =>
      rw [write_cons]
      exact h.isRead_head.startsBlank_source_append _

end Layout

/-- Only quoted runs and block comments can hold a line feed. -/
theorem Token.IsRead.of_feed_mem (h : token.IsRead) (hfeed : '\n' ∈ token.source) :
    (∃ w, token = .quoted w) ∨ ∃ w, token = .blockComment w := by
  cases token with
  | word w =>
      have hbreak := h.isWordRun.isBreak_eq_false '\n' hfeed
      exact absurd hbreak (by decide)
  | quoted w => exact .inl ⟨w, rfl⟩
  | lineComment w =>
      rcases h with hwhole | hcut
      · cases hwhole with
        | lineComment hline => simp_all [source]
      · cases hcut
  | blockComment w => exact .inr ⟨w, rfl⟩
  | _ => exact absurd hfeed (by decide)

/-- A space in front of a line feed stands in a token together with it, if no gap holds both and no
token starts or ends in a blank. -/
theorem Gapped.exists_token_of_text_eq (hgap : ∀ p ∈ row, Layout.FeedsFirst p.gap)
    (hread : ∀ p ∈ row, p.atom.token.IsRead)
    (htrim : ∀ p ∈ row, p.atom.token.source.trimEnd = p.atom.token.source)
    (h : Gapped.text row = front ++ ' ' :: '\n' :: back) :
    ∃ before p behind inside others, row = before ++ p :: behind ∧
      ((∃ w, p.atom.token = .quoted w) ∨ ∃ w, p.atom.token = .blockComment w) ∧
      p.atom.token.source = inside ++ ' ' :: '\n' :: others ∧
      front = Gapped.text before ++ (p.gap ++ inside) := by
  induction row generalizing front with
  | nil => simp [Gapped.text] at h
  | cons p row ih =>
      obtain ⟨hgap, hgaps⟩ := List.forall_mem_cons.1 hgap
      obtain ⟨hread, hreads⟩ := List.forall_mem_cons.1 hread
      obtain ⟨htrim, htrims⟩ := List.forall_mem_cons.1 htrim
      obtain ⟨c, u, hsource, hc⟩ := hread.exists_source_eq_cons
      rw [Gapped.text_cons] at h
      -- The space stands in the gap, in the token or behind it.
      rcases Text.split_append h with ⟨v, hv⟩ | ⟨others, rfl, hothers⟩
      · rw [hv, List.append_assoc, List.append_cancel_left_eq, List.cons_append,
          List.cons.injEq] at h
        cases v with
        | nil =>
            rw [hsource] at h
            obtain rfl : c = '\n' := (List.cons.inj h.2).1
            exact absurd hc (by decide)
        | cons d v =>
            obtain rfl : d = '\n' := (List.cons.inj h.2).1
            exact absurd hv hgap.ne_append
      rcases Text.split_append hothers with ⟨v, hv⟩ | ⟨others, rfl, hrest⟩
      · rw [hv, List.append_assoc, List.append_cancel_left_eq, List.cons_append,
          List.cons.injEq] at hothers
        cases v with
        | nil =>
            have hlast := Text.trimEnd_eq_self_iff.1 htrim ' ' (by simp [hv])
            exact absurd hlast (by decide)
        | cons d v =>
            obtain rfl : d = '\n' := (List.cons.inj hothers.2).1
            exact ⟨[], p, row, others, v, rfl, hread.of_feed_mem (by simp [hv]), hv, rfl⟩
      · obtain ⟨before, q, behind, inside, tail, rfl, hkind, hq, rfl⟩ :=
          ih hgaps hreads htrims hrest
        refine ⟨p :: before, q, behind, inside, tail, rfl, hkind, hq, ?_⟩
        rw [Gapped.text_cons]
        simp

/-- A layout consists of the row of its atoms, each behind the gap that was made for it. -/
theorem Text.consistsOf_format (indent : Nat) (t : Text) :
    (t.format indent).ConsistsOf (Layout.gapped indent 0 none ((atoms t).map Atom.trimmed)) [] where
  atoms := by rw [Layout.map_atom_gapped, atoms_format]
  text := by rw [Layout.text_gapped, List.append_nil, format_eq_write]
  isGap p hp := by
    obtain ⟨depth, previous, hgap⟩ := Layout.exists_gap_eq_of_mem hp
    rw [hgap]
    exact Layout.isGap_gapBehind indent depth previous p.atom
  isGap_last := isGap_nil

/-- The tokens of a layout neither start nor end in a blank. -/
theorem Text.ConsistsOf.isRead_of_format {indent : Nat} {last : Text}
    (h : (t.format indent).ConsistsOf row last) :
    ∀ p ∈ row, p.atom.token.IsRead ∧ p.atom.token.source.trimEnd = p.atom.token.source := by
  intro p hp
  have hmem : p.atom.token ∈ tokens (t.format indent) := by
    rw [tokens, ← h.atoms, List.map_map]
    exact List.mem_map_of_mem hp
  refine ⟨isRead_of_mem_tokens _ hmem, ?_⟩
  rw [tokens_format] at hmem
  obtain ⟨token, -, htrimmed⟩ := List.mem_map.1 hmem
  rw [← htrimmed, Token.source_trimmed, trimEnd_trimEnd]

/-- A layout has lines of a fixed form. -/
theorem Text.exists_isLaidOut (indent : Nat) (t : Text) :
    ∃ row, (t.format indent).ConsistsOf row [] ∧ Layout.IsLaidOut indent row := by
  have hconsists := consistsOf_format indent t
  have htokens := hconsists.isRead_of_format
  have hfeeds : ∀ p ∈ Layout.gapped indent 0 none ((atoms t).map Atom.trimmed),
      Layout.FeedsFirst p.gap := by
    intro p hp
    obtain ⟨depth, previous, hgap⟩ := Layout.exists_gap_eq_of_mem hp
    rw [hgap]
    exact Layout.feedsFirst_gapBehind indent depth previous p.atom
  refine ⟨_, hconsists, ?_⟩
  constructor
  case breaks =>
    intro before p behind hrow
    exact Layout.breaksLine_of_gapped_eq_append hrow
  case closes =>
    intro before p behind hrow
    exact Layout.getLast?_of_gapped_eq_append hrow
  case stays =>
    intro before p q behind hrow hdepth hfeed
    rw [Layout.gap_of_gapped_eq_append_cons hrow] at hfeed
    exact Layout.of_feed_mem_gap hdepth hfeed
  case ends =>
    intro front back htext
    exact Gapped.exists_token_of_text_eq hfeeds (fun p hp => (htokens p hp).1)
      (fun p hp => (htokens p hp).2) htext
  case startsBlank =>
    rw [Layout.text_gapped]
    exact Layout.startsBlank_write (legible_atoms t).map_trimmed indent 0
  case trimEnd =>
    rw [Layout.text_gapped, ← format_eq_write, format]
    exact trimEnd_trimEnd _

/-- A body with a comment behind its parenthesis and a comma, with parameters on one line, and with
a comma at its end. -/
example : Text.format 2 "t(a DEC( 8,2 ) ,-- key\nb ( -- c\n),);x".toList =
    "t (\n  a DEC(8, 2), -- key\n  b ( -- c\n),\n);\n\nx".toList := by
  decide +kernel

end DdlDiagram
