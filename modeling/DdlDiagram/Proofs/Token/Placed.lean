import DdlDiagram.Proofs.Nesting.Uncut
import DdlDiagram.Proofs.Token.Legible

/-!
# Tokens and the characters they are made of

The reader of tokens takes a quoted run as one token and a doubled quote in it as one character.
What follows quoted runs character by character takes the doubled quote as the end of a run and
the start of another one. In a text without comments both find the same: a character is quoted
exactly if it lies within the token of a quoted run, and the delimiters that are not quoted are
those that are tokens. So the tokens in front of a place open as many parentheses as the
characters do that are not quoted there.
-/

namespace DdlDiagram

open Nesting

variable {s t rest front behind g run : Text} {token : Token} {c quote : Char} {q : Quote}

namespace Text

/-- The characters of a text outside of quoted runs, with their byte offsets. The text starts at
an offset, and the run `q` is open there. -/
def unquotedFrom (q : Quote) (offset : Nat) : Text → List (Nat × Char)
  | [] => []
  | c :: rest =>
    if q.covers c then unquotedFrom (q.after c) (offset + c.utf8Size) rest
    else (offset, c) :: unquotedFrom (q.after c) (offset + c.utf8Size) rest

def unquoted (t : Text) : List (Nat × Char) := unquotedFrom none 0 t

theorem unquotedFrom_append (q : Quote) (offset : Nat) (s t : Text) :
    unquotedFrom q offset (s ++ t) =
      unquotedFrom q offset s ++ unquotedFrom (q.afterText s) (offset + s.utf8Size) t := by
  induction s generalizing q offset with
  | nil => rfl
  | cons c rest ih =>
      rw [List.cons_append, unquotedFrom, unquotedFrom, ih, Quote.afterText_cons, utf8Size,
        Nat.add_assoc]
      split <;> rfl

theorem unquotedFrom_cons_of_covers {offset : Nat} (h : q.covers c = true) :
    unquotedFrom q offset (c :: t) = unquotedFrom (q.after c) (offset + c.utf8Size) t := by
  rw [unquotedFrom, if_pos h]

/-- Parentheses count where they are not quoted. -/
theorem depth_afterText (q : Quote) (d : Depth) (offset : Nat) (t : Text) :
    (Nesting.afterText ⟨q, d⟩ t).depth =
      (unquotedFrom q offset t).foldl (fun d x => d.after x.2) d := by
  induction t generalizing q d offset with
  | nil => rfl
  | cons c rest ih =>
      rw [Nesting.afterText_cons, unquotedFrom, Nesting.after]
      cases hcovers : q.covers c with
      | true => exact ih _ _ _
      | false =>
          obtain ⟨rfl, hafter⟩ := Quote.eq_none_of_not_covers hcovers
          rw [hafter]
          exact ih _ _ _

/-- Where nothing is unquoted, every character is quoted. -/
theorem covers_of_unquotedFrom_eq_nil (offset : Nat)
    (h : unquotedFrom q offset (front ++ c :: behind) = []) :
    (q.afterText front).covers c = true := by
  rw [unquotedFrom_append, List.append_eq_nil_iff, unquotedFrom] at h
  by_contra hcovers
  rw [if_neg hcovers] at h
  exact List.cons_ne_nil _ _ h.2

/-- The place of a character comes before the end. -/
theorem utf8Size_lt_append_cons (front : Text) (c : Char) (behind : Text) :
    front.utf8Size < (front ++ c :: behind).utf8Size := by
  have hpos := c.utf8Size_pos
  rw [utf8Size_append, utf8Size]
  omega

/-- A text without delimiters has none that are unquoted. -/
theorem filter_unquotedFrom_eq_nil (q : Quote) (offset : Nat)
    (h : ∀ c ∈ t, Token.isDelimiter c = false) :
    (unquotedFrom q offset t).filter (fun x => Token.isDelimiter x.2) = [] := by
  induction t generalizing q offset with
  | nil => rfl
  | cons c rest ih =>
      obtain ⟨hc, hrest⟩ := List.forall_mem_cons.1 h
      rw [unquotedFrom]
      split
      · exact ih _ _ hrest
      · rw [List.filter_cons_of_neg (by simp [hc])]
        exact ih _ _ hrest

/-- A character of a text in two parts stands in one of them. -/
theorem split_append (h : s ++ t = front ++ c :: behind) :
    (∃ u, s = front ++ c :: u) ∨ ∃ others, front = s ++ others ∧ t = others ++ c :: behind := by
  rcases List.append_eq_append_iff.1 h with ⟨others, hfront, ht⟩ | ⟨u, hs, hu⟩
  · exact .inr ⟨others, hfront, ht⟩
  · cases u with
    | nil => exact .inr ⟨[], by simpa using hs.symm, by simpa using hu.symm⟩
    | cons d u =>
        obtain ⟨rfl, -⟩ := List.cons.inj hu
        exact .inl ⟨u, hs⟩

end Text

/-- An atom with the byte offset at which its token starts. -/
structure Placed where
  offset : Nat
  atom : Atom
  deriving DecidableEq, Repr

/-- The atoms of a text that starts at an offset. -/
def placedFrom (offset : Nat) (t : Text) : List Placed :=
  match _h : Token.next? t.trimStart with
  | none => []
  | some (token, rest) =>
    ⟨offset + (t.utf8Size - t.trimStart.utf8Size), token, t.startsBlank⟩ ::
      placedFrom (offset + (t.utf8Size - rest.utf8Size)) rest
termination_by t.length
decreasing_by
  exact Nat.lt_of_lt_of_le (Token.length_lt_of_next? _h) (Text.length_trimStart_le t)

def placed (t : Text) : List Placed := placedFrom 0 t

def Token.delimiter? : Token → Option Char
  | openParen => some '('
  | closeParen => some ')'
  | comma => some ','
  | semicolon => some ';'
  | _ => none

def Token.isQuoted : Token → Bool
  | quoted _ => true
  | _ => false

namespace Placed

/-- The delimiter that stands here, with its byte offset. -/
def delimiter? (p : Placed) : Option (Nat × Char) :=
  p.atom.token.delimiter?.map fun c => (p.offset, c)

/-- Whether the token extends over a byte offset. -/
def Holds (p : Placed) (offset : Nat) : Prop :=
  p.offset ≤ offset ∧ offset < p.offset + p.atom.token.source.utf8Size

end Placed

theorem placedFrom_of_isGap (offset : Nat) (hg : Text.IsGap g) : placedFrom offset g = [] := by
  rw [placedFrom]
  split
  · rfl
  · rename_i hnext
    simp [hg.trimStart, Token.next?] at hnext

/-- The first atom of a text stands behind the gap at its start, the others behind its token. -/
theorem placedFrom_append (offset : Nat) (hg : Text.IsGap g)
    (hblank : (token.source ++ rest).startsBlank = false)
    (hnext : Token.next? (token.source ++ rest) = some (token, rest)) :
    placedFrom offset (g ++ (token.source ++ rest)) =
      ⟨offset + g.utf8Size, token, !g.isEmpty⟩ ::
        placedFrom (offset + g.utf8Size + token.source.utf8Size) rest := by
  have htrim : (g ++ (token.source ++ rest)).trimStart = token.source ++ rest := by
    rw [hg.trimStart_append, Text.trimStart_of_startsBlank_eq_false hblank]
  have hgap : (g ++ (token.source ++ rest)).utf8Size - (token.source ++ rest).utf8Size =
      g.utf8Size := by
    rw [Text.utf8Size_append]
    omega
  have htoken : (g ++ (token.source ++ rest)).utf8Size - rest.utf8Size =
      g.utf8Size + token.source.utf8Size := by
    rw [Text.utf8Size_append, Text.utf8Size_append]
    omega
  rw [placedFrom]
  split
  · rename_i hnone
    simp [htrim, hnext] at hnone
  · rename_i hsome
    rw [htrim, hnext, Option.some.injEq, Prod.mk.injEq] at hsome
    obtain ⟨rfl, rfl⟩ := hsome
    rw [htrim, hgap, htoken, hg.startsBlank_append hblank, Nat.add_assoc]

/-- The atoms stand at the start of their text or behind it. -/
theorem le_offset_of_mem {offset : Nat} {p : Placed} (hp : p ∈ placedFrom offset t) :
    offset ≤ p.offset := by
  fun_induction placedFrom offset t with
  | case1 => exact nomatch hp
  | case2 offset t token rest hnext ih =>
      rcases List.mem_cons.1 hp with rfl | hp
      · exact Nat.le_add_right _ _
      · exact Nat.le_trans (Nat.le_add_right _ _) (ih hp)

theorem map_atom_placedFrom (offset : Nat) (t : Text) :
    (placedFrom offset t).map (·.atom) = atoms t := by
  fun_induction placedFrom offset t with
  | case1 offset t hnext =>
      rw [atoms]
      split
      · rfl
      · simp_all
  | case2 offset t token rest hnext ih =>
      rw [atoms]
      split
      · simp_all
      · rename_i hsome
        rw [hnext, Option.some.injEq, Prod.mk.injEq] at hsome
        obtain ⟨rfl, rfl⟩ := hsome
        rw [List.map_cons, ih]

namespace Token

theorem unquotedFrom_quote_cons (hquote : isQuote quote = true) (offset : Nat) (run : Text) :
    Text.unquotedFrom none offset (quote :: run) =
      Text.unquotedFrom (some quote) (offset + quote.utf8Size) run := by
  have hcovers : Quote.covers none quote = true := hquote
  rw [Text.unquotedFrom_cons_of_covers hcovers, Quote.after_open hquote]

theorem unquotedFrom_closedRun (hrun : ClosedRun quote run) (hquote : isQuote quote = true)
    (offset : Nat) : Text.unquotedFrom (some quote) offset run = [] := by
  induction hrun generalizing offset with
  | close => rfl
  | escape _ ih =>
      rw [Text.unquotedFrom_cons_of_covers rfl, Quote.after_close, unquotedFrom_quote_cons hquote]
      exact ih _
  | char hc _ ih =>
      rw [Text.unquotedFrom_cons_of_covers rfl, Quote.after, if_neg hc]
      exact ih _

/-- A quote closes an open run. -/
theorem OpenRun.closedRun_append (hrun : OpenRun quote run) : ClosedRun quote (run ++ [quote]) := by
  induction hrun with
  | nil => exact .close
  | escape _ ih => exact .escape ih
  | char hc _ ih => exact .char hc ih

theorem unquotedFrom_openRun (hrun : OpenRun quote run) (hquote : isQuote quote = true)
    (offset : Nat) : Text.unquotedFrom (some quote) offset run = [] := by
  have hclosed := unquotedFrom_closedRun hrun.closedRun_append hquote offset
  rw [Text.unquotedFrom_append, List.append_eq_nil_iff] at hclosed
  exact hclosed.1

/-- Behind a closed run nothing is open but what was open in front of it. -/
theorem afterText_closedRun (hrun : ClosedRun quote run) (hquote : isQuote quote = true)
    (d : Depth) : Nesting.afterText ⟨some quote, d⟩ run = ⟨none, d⟩ := by
  induction hrun with
  | close => rw [Nesting.afterText_cons, after_in_run, if_pos rfl, Nesting.afterText_nil]
  | escape _ ih =>
      rw [Nesting.afterText_cons, after_in_run, if_pos rfl, Nesting.afterText_cons,
        after_open_run hquote, ih]
  | char hc _ ih => rw [Nesting.afterText_cons, after_in_run, if_neg hc, ih]

/-- A gap holds neither quotes nor parentheses. -/
theorem uncut_of_isGap (hg : Text.IsGap g) : Balanced g := by
  refine .of_forall fun c hc => ?_
  obtain ⟨hquote, hopen, hclose⟩ := Nesting.plain_of_isBlank (hg c hc)
  exact ⟨hquote, hopen, hclose, rfl⟩

/-- A word holds neither quotes nor parentheses. -/
theorem IsWordRun.uncut (h : IsWordRun t) : Balanced t := by
  refine .of_forall fun c hc => ?_
  obtain ⟨-, hdelimiter, hquote⟩ := isBreak_eq_false_iff.1 (h.isBreak_eq_false c hc)
  simp only [isDelimiter, Bool.or_eq_false_iff, beq_eq_false_iff_ne] at hdelimiter
  exact ⟨hquote, hdelimiter.1.1.1, hdelimiter.1.1.2, rfl⟩

/-- Character by character a token moves the depth as it does as a whole. -/
theorem Whole.afterText (h : Whole token) (hcomment : token.isComment = false) (d : Depth) :
    Nesting.afterText ⟨none, d⟩ token.source = ⟨none, token.depthAfter d⟩ := by
  cases h with
  | word _ hrun => exact hrun.uncut.afterText d
  | quoted hquote hrun =>
      change Nesting.afterText (Nesting.after ⟨none, d⟩ _) _ = _
      rw [after_open_run hquote]
      exact afterText_closedRun hrun hquote d
  | lineComment => exact absurd hcomment Bool.noConfusion
  | blockComment => exact absurd hcomment Bool.noConfusion
  | openParen => rfl
  | closeParen => rfl
  | comma => rfl
  | semicolon => rfl

theorem Whole.quote_afterText (h : Whole token) (hcomment : token.isComment = false) :
    Quote.afterText none token.source = none := by
  have hquote := congrArg Nesting.quote (h.afterText hcomment 0)
  rwa [Nesting.quote_afterText] at hquote

/-- All characters of a quoted run are quoted. -/
theorem IsRead.unquotedFrom_eq_nil (h : IsRead (.quoted run)) (offset : Nat) :
    Text.unquotedFrom none offset run = [] := by
  rcases h with h | h
  · cases h with
    | quoted hquote hrun =>
        rw [unquotedFrom_quote_cons hquote]
        exact unquotedFrom_closedRun hrun hquote _
  · cases h with
    | quoted hquote hrun =>
        rw [unquotedFrom_quote_cons hquote]
        exact unquotedFrom_openRun hrun hquote _

/-- A token has an unquoted delimiter exactly if it is one. -/
theorem IsRead.filter_unquotedFrom (h : IsRead token) (hcomment : token.isComment = false)
    (offset : Nat) :
    (Text.unquotedFrom none offset token.source).filter (fun x => isDelimiter x.2) =
      (token.delimiter?.map fun c => (offset, c)).toList := by
  cases token with
  | word w =>
      apply Text.filter_unquotedFrom_eq_nil
      intro c hc
      exact (isBreak_eq_false_iff.1 (h.isWordRun.isBreak_eq_false c hc)).2.1
  | quoted run => rw [source, h.unquotedFrom_eq_nil]; rfl
  | lineComment => exact absurd hcomment Bool.noConfusion
  | blockComment => exact absurd hcomment Bool.noConfusion
  | openParen => rfl
  | closeParen => rfl
  | comma => rfl
  | semicolon => rfl

/-- All characters of a quoted run are quoted, and none of another token. -/
theorem IsRead.covers (h : IsRead token) (hcomment : token.isComment = false)
    (hsplit : token.source = front ++ c :: behind) :
    (Quote.afterText none front).covers c = token.isQuoted := by
  have hplain : (∀ d ∈ token.source, isQuote d = false) →
      (Quote.afterText none front).covers c = false := by
    intro hquotes
    rw [hsplit, List.forall_mem_append, List.forall_mem_cons] at hquotes
    rw [Quote.afterText_of_not_isQuote hquotes.1]
    exact hquotes.2.1
  have hmark : ∀ d, token.source = [d] → isQuote d = false →
      (Quote.afterText none front).covers c = false := by
    intro d hsource hquote
    apply hplain
    rw [hsource]
    exact List.forall_mem_singleton.2 hquote
  cases token with
  | word w =>
      apply hplain
      intro d hd
      exact (isBreak_eq_false_iff.1 (h.isWordRun.isBreak_eq_false d hd)).2.2
  | quoted run =>
      apply Text.covers_of_unquotedFrom_eq_nil 0
      rw [← hsplit]
      exact h.unquotedFrom_eq_nil 0
  | lineComment => exact absurd hcomment Bool.noConfusion
  | blockComment => exact absurd hcomment Bool.noConfusion
  | openParen => exact hmark '(' rfl rfl
  | closeParen => exact hmark ')' rfl rfl
  | comma => exact hmark ',' rfl rfl
  | semicolon => exact hmark ';' rfl rfl

end Token

theorem quote_afterText_gap (hg : Text.IsGap g) : Quote.afterText none g = none :=
  Quote.afterText_of_not_isQuote fun c hc => Token.not_isQuote_of_isBlank (hg c hc)

theorem filter_unquotedFrom_gap (hg : Text.IsGap g) (q : Quote) (offset : Nat) :
    (Text.unquotedFrom q offset g).filter (fun x => Token.isDelimiter x.2) = [] := by
  apply Text.filter_unquotedFrom_eq_nil
  intro c hc
  cases hdelimiter : Token.isDelimiter c with
  | false => rfl
  | true =>
      simp only [Token.isDelimiter, Bool.or_eq_true, beq_iff_eq] at hdelimiter
      rcases hdelimiter with ((rfl | rfl) | rfl) | rfl <;> exact absurd (hg _ hc) (by decide)

/-- The delimiters that are tokens are those that are not quoted. -/
theorem filterMap_delimiter?_placedFrom (t : Text)
    (hfree : ∀ token ∈ tokens t, token.isComment = false) (offset : Nat) :
    (placedFrom offset t).filterMap Placed.delimiter? =
      (Text.unquotedFrom none offset t).filter fun x => Token.isDelimiter x.2 := by
  refine Text.commentFree_induction (motive := fun t => ∀ offset,
    (placedFrom offset t).filterMap Placed.delimiter? =
      (Text.unquotedFrom none offset t).filter fun x => Token.isDelimiter x.2)
    ?gap ?token t hfree offset
  case gap =>
    intro g hg offset
    rw [placedFrom_of_isGap offset hg, filter_unquotedFrom_gap hg]
    rfl
  case token =>
    intro g token rest hg hread hcomment hblank hnext _ ih offset
    have hsource := Token.IsRead.filter_unquotedFrom (hread.imp And.left And.left) hcomment
    have hrest : Text.unquotedFrom (Quote.afterText none token.source)
        (offset + g.utf8Size + token.source.utf8Size) rest =
          Text.unquotedFrom none (offset + g.utf8Size + token.source.utf8Size) rest := by
      rcases hread with ⟨hwhole, -⟩ | ⟨-, rfl⟩
      · rw [hwhole.quote_afterText hcomment]
      · rfl
    rw [placedFrom_append offset hg hblank hnext, Text.unquotedFrom_append,
      quote_afterText_gap hg, Text.unquotedFrom_append, List.filter_append, List.filter_append,
      filter_unquotedFrom_gap hg, hsource, List.nil_append, hrest, ← ih, List.filterMap_cons,
      Placed.delimiter?]
    cases token.delimiter? <;> rfl

theorem covers_of_isGap (hg : Text.IsGap (front ++ c :: behind)) :
    (Quote.afterText none front).covers c = false := by
  rw [Text.isGap_append, Text.isGap_cons] at hg
  rw [quote_afterText_gap hg.1]
  exact Token.not_isQuote_of_isBlank hg.2.1

/-- Whether a quoted run among placed atoms extends over a byte offset. -/
def IsQuotedAt (offset : Nat) (ps : List Placed) : Prop :=
  ∃ p ∈ ps, p.atom.token.isQuoted = true ∧ p.Holds offset

theorem isQuotedAt_cons (n offset : Nat) (spaced : Bool) (ps : List Placed) :
    IsQuotedAt n (⟨offset, token, spaced⟩ :: ps) ↔
      (token.isQuoted = true ∧ offset ≤ n ∧ n < offset + token.source.utf8Size) ∨
        IsQuotedAt n ps := List.exists_mem_cons_iff ..

/-- No atom extends over what stands in front of its text. -/
theorem not_isQuotedAt_of_lt {n offset : Nat} (hn : n < offset) (t : Text) :
    ¬ IsQuotedAt n (placedFrom offset t) := by
  rintro ⟨p, hp, -, hstart, -⟩
  have hoffset := le_offset_of_mem hp
  omega

/-- A character is quoted exactly if the token of a quoted run extends over it. -/
theorem covers_iff_isQuotedAt (t : Text) (hfree : ∀ token ∈ tokens t, token.isComment = false)
    (offset : Nat) (hsplit : t = front ++ c :: behind) :
    (Quote.afterText none front).covers c = true ↔
      IsQuotedAt (offset + front.utf8Size) (placedFrom offset t) := by
  refine Text.commentFree_induction (motive := fun t => ∀ offset front c behind,
    t = front ++ c :: behind → ((Quote.afterText none front).covers c = true ↔
      IsQuotedAt (offset + front.utf8Size) (placedFrom offset t)))
    ?gap ?token t hfree offset front c behind hsplit
  case gap =>
    intro g hg offset front c behind hsplit
    rw [placedFrom_of_isGap offset hg, covers_of_isGap (hsplit ▸ hg)]
    simp [IsQuotedAt]
  case token =>
    intro g token rest hg hread hcomment hblank hnext _ ih offset front c behind hsplit
    rw [placedFrom_append offset hg hblank hnext, isQuotedAt_cons]
    -- The character stands in the gap, in the token or behind it.
    rcases Text.split_append hsplit with ⟨u, rfl⟩ | ⟨others, rfl, hothers⟩
    · have hlt := Text.utf8Size_lt_append_cons front c u
      have hbehind : ¬ IsQuotedAt (offset + front.utf8Size)
          (placedFrom (offset + (front ++ c :: u).utf8Size + token.source.utf8Size) rest) :=
        not_isQuotedAt_of_lt (by omega) rest
      rw [covers_of_isGap hg]
      constructor
      · exact nofun
      · rintro (⟨-, hstart, -⟩ | h)
        · omega
        · exact absurd h hbehind
    rw [Quote.afterText_append, quote_afterText_gap hg, Text.utf8Size_append]
    rcases Text.split_append hothers with ⟨u, hu⟩ | ⟨others, rfl, rfl⟩
    · have hlt := Text.utf8Size_lt_append_cons others c u
      rw [← hu] at hlt
      have hbehind : ¬ IsQuotedAt (offset + (g.utf8Size + others.utf8Size))
          (placedFrom (offset + g.utf8Size + token.source.utf8Size) rest) :=
        not_isQuotedAt_of_lt (by omega) rest
      rw [Token.IsRead.covers (hread.imp And.left And.left) hcomment hu]
      constructor
      · intro hquoted
        exact .inl ⟨hquoted, by omega, by omega⟩
      · rintro (⟨hquoted, -⟩ | h)
        · exact hquoted
        · exact absurd h hbehind
    · have hwhole : Token.Whole token := by
        rcases hread with ⟨hwhole, -⟩ | ⟨-, hnil⟩
        · exact hwhole
        · exact absurd hnil (by simp)
      have hplace : offset + (g.utf8Size + (token.source ++ others).utf8Size) =
          offset + g.utf8Size + token.source.utf8Size + others.utf8Size := by
        rw [Text.utf8Size_append]
        omega
      rw [Quote.afterText_append, hwhole.quote_afterText hcomment, hplace,
        ih _ others c behind rfl]
      constructor
      · exact .inr
      · rintro (⟨-, -, hend⟩ | h)
        · omega
        · exact h

end DdlDiagram
