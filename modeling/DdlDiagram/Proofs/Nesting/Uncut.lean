import DdlDiagram.Identifier
import DdlDiagram.Proofs.Nesting.Words
import DdlDiagram.Proofs.Text.Tight

/-!
# Uncut texts

A text is uncut when its quoted runs are closed, its parentheses match, and what stands outside of
both satisfies no cut. A scan for pieces passes over it as a whole, and a scan for the end of a
group passes over every text whose parentheses match.
-/

namespace DdlDiagram
namespace Nesting

/-- Texts whose quoted runs are closed, whose parentheses match and whose characters at top level
satisfy no cut. -/
inductive Uncut : (Char → Bool) → Text → Prop where
  | nil (cut : Char → Bool) : Uncut cut []
  | char {cut : Char → Bool} {c : Char} {t : Text} : isQuote c = false → c ≠ '(' → c ≠ ')' →
      cut c = false → Uncut cut t → Uncut cut (c :: t)
  | run {cut : Char → Bool} {q : Char} {inner t : Text} : isQuote q = true → q ∉ inner →
      Uncut cut t → Uncut cut (q :: (inner ++ q :: t))
  | group {cut : Char → Bool} {body t : Text} : Uncut (fun _ => false) body → Uncut cut t →
      Uncut cut ('(' :: (body ++ ')' :: t))

abbrev Balanced : Text → Prop := Uncut fun _ => false

variable {cut : Char → Bool} {t u : Text}

/-- A text stays uncut where fewer characters are cuts. -/
theorem Uncut.mono {cut' : Char → Bool} (h : Uncut cut t)
    (hcut : ∀ c, cut c = false → cut' c = false) : Uncut cut' t := by
  induction h with
  | nil => exact .nil _
  | char hquote hopen hclose hc _ ih => exact .char hquote hopen hclose (hcut _ hc) (ih hcut)
  | run hquote hinner _ ih => exact .run hquote hinner (ih hcut)
  | group hbody _ _ ih => exact .group hbody (ih hcut)

theorem Uncut.balanced (h : Uncut cut t) : Balanced t := h.mono fun _ _ => rfl

theorem Uncut.append (ht : Uncut cut t) (hu : Uncut cut u) : Uncut cut (t ++ u) := by
  induction ht with
  | nil => exact hu
  | char hquote hopen hclose hcut _ ih => exact .char hquote hopen hclose hcut (ih hu)
  | run hquote hinner _ ih =>
      rw [List.cons_append, List.append_assoc, List.cons_append]
      exact .run hquote hinner (ih hu)
  | group hbody _ _ ih =>
      rw [List.cons_append, List.append_assoc, List.cons_append]
      exact .group hbody (ih hu)

/-- A balanced text in parentheses is uncut, whatever the cut. -/
theorem Uncut.parenthesized {body : Text} (h : Balanced body) :
    Uncut cut ('(' :: (body ++ [')'])) := .group h (.nil cut)

theorem Uncut.of_forall
    (h : ∀ c ∈ t, isQuote c = false ∧ c ≠ '(' ∧ c ≠ ')' ∧ cut c = false) : Uncut cut t := by
  induction t with
  | nil => exact .nil cut
  | cons c rest ih =>
      obtain ⟨hc, hrest⟩ := List.forall_mem_cons.1 h
      exact .char hc.1 hc.2.1 hc.2.2.1 hc.2.2.2 (ih hrest)

theorem Uncut.of_all (h : (t.all fun c => !isQuote c && c != '(' && c != ')' && !cut c) = true) :
    Uncut cut t := by
  refine .of_forall fun c hc => ?_
  have hplain := List.all_eq_true.1 h c hc
  simp only [Bool.and_eq_true, Bool.not_eq_true', bne_iff_ne] at hplain
  exact ⟨hplain.1.1.1, hplain.1.1.2, hplain.1.2, hplain.2⟩

theorem Uncut.join {sep : Text} {ts : List Text} (hsep : Uncut cut sep)
    (hts : ∀ t ∈ ts, Uncut cut t) : Uncut cut (Text.join sep ts) := by
  induction ts with
  | nil => exact .nil _
  | cons t others ih =>
      obtain ⟨ht, hothers⟩ := List.forall_mem_cons.1 hts
      by_cases hne : others = []
      · rw [hne]
        exact ht
      · rw [Text.join_cons_of_ne_nil hne]
        exact (ht.append hsep).append (ih hothers)

@[simp] theorem after_open_paren (d : Depth) : after ⟨none, d⟩ '(' = ⟨none, d + 1⟩ := rfl

@[simp] theorem after_close_paren (d : Depth) : after ⟨none, d + 1⟩ ')' = ⟨none, d⟩ := rfl

theorem after_open_run {q : Char} (hquote : isQuote q = true) (d : Depth) :
    after ⟨none, d⟩ q = ⟨some q, d⟩ := by
  simp [after, hquote, Quote.after]

/-- Within a quoted run only the character that closes it moves anything. -/
theorem after_in_run {q c : Char} (d : Depth) :
    after ⟨some q, d⟩ c = ⟨if c = q then none else some q, d⟩ := rfl

/-- The scan of a group passes over the rest of a quoted run. -/
theorem upToClose_run {q : Char} {inner : Text} (hinner : q ∉ inner) (d : Depth) (u : Text) :
    upToClose ⟨some q, d⟩ (inner ++ q :: u) =
      (upToClose ⟨none, d⟩ u).map (inner ++ q :: ·) := by
  have hquoted : ∀ c, ¬ (c = ')' ∧ atTop ⟨some q, d⟩ c = true) := fun c h => nomatch h.2
  induction inner with
  | nil => rw [List.nil_append, upToClose, if_neg (hquoted q), after_in_run, if_pos rfl]; rfl
  | cons c rest ih =>
      rw [List.mem_cons, not_or] at hinner
      rw [List.cons_append, upToClose, if_neg (hquoted c), after_in_run,
        if_neg (Ne.symm hinner.1), ih hinner.2, Option.map_map]
      rfl

/-- No cut is made in the rest of a quoted run. -/
theorem pieces_run {q : Char} {inner : Text} (hinner : q ∉ inner) (cut : Char → Bool) (d : Depth)
    (u : Text) : pieces cut ⟨some q, d⟩ (inner ++ q :: u) =
      Text.prepend inner (Text.consHead q (pieces cut ⟨none, d⟩ u)) := by
  have hquoted : ∀ c, ¬ ((atTop ⟨some q, d⟩ c && cut c) = true) := fun c h => nomatch h
  induction inner with
  | nil => rw [List.nil_append, pieces, if_neg (hquoted q), after_in_run, if_pos rfl]; rfl
  | cons c rest ih =>
      rw [List.mem_cons, not_or] at hinner
      rw [List.cons_append, pieces, if_neg (hquoted c), after_in_run, if_neg (Ne.symm hinner.1),
        ih hinner.2, Text.prepend_cons]

/-- The scan of a group passes over a text whose parentheses match. -/
theorem Uncut.upToClose_append (h : Uncut cut t) (d : Depth) (u : Text) :
    upToClose ⟨none, d + 1⟩ (t ++ u) = (upToClose ⟨none, d + 1⟩ u).map (t ++ ·) := by
  induction h generalizing d u with
  | nil => simp
  | char hquote hopen hclose _ _ ih =>
      rw [List.cons_append, upToClose, if_neg (fun h => hclose h.1),
        after_plain hquote hopen hclose, ih, Option.map_map]
      rfl
  | @run _ q inner rest hquote hinner _ ih =>
      have hparen : ¬ (q = ')' ∧ atTop ⟨none, d + 1⟩ q = true) := by
        rintro ⟨rfl, -⟩
        exact absurd hquote (by decide)
      rw [List.cons_append, List.append_assoc, List.cons_append, upToClose, if_neg hparen,
        after_open_run hquote, upToClose_run hinner, ih]
      simp [Option.map_map, Function.comp_def]
  | @group _ body rest _ _ ihbody ihrest =>
      have hopen : upToClose ⟨none, d + 1⟩ ('(' :: (body ++ ')' :: (rest ++ u))) =
          (upToClose ⟨none, d + 2⟩ (body ++ ')' :: (rest ++ u))).map ('(' :: ·) := by
        rw [upToClose, if_neg (by simp), after_open_paren]
      have hclose : upToClose ⟨none, d + 2⟩ (')' :: (rest ++ u)) =
          (upToClose ⟨none, d + 1⟩ (rest ++ u)).map (')' :: ·) := by
        have hinner : atTop ⟨none, d + 2⟩ ')' = false := rfl
        rw [upToClose, if_neg (by simp [hinner]), after_close_paren]
      rw [List.cons_append, List.append_assoc, List.cons_append, hopen, ihbody, hclose, ihrest]
      simp [Option.map_map, Function.comp_def]

/-- The body of a group is what stands between its parentheses. -/
theorem Uncut.groupBody?_append (h : Uncut cut t) (u : Text) :
    Text.groupBody? ('(' :: (t ++ ')' :: u)) = some t := by
  rw [Text.groupBody?_open, h.upToClose_append, upToClose, if_pos ⟨rfl, rfl⟩]
  simp

/-- Within parentheses a text whose parentheses match is not cut at all. -/
theorem Uncut.pieces_append_of_inner (h : Uncut cut t) (cut' : Char → Bool) (d : Depth)
    (u : Text) :
    pieces cut' ⟨none, d + 1⟩ (t ++ u) = Text.prepend t (pieces cut' ⟨none, d + 1⟩ u) := by
  induction h generalizing d u with
  | nil => rfl
  | @char _ c rest hquote hopen hclose _ _ ih =>
      have hinner : atTop ⟨none, d + 1⟩ c = false := by
        simp [atTop, after_plain hquote hopen hclose]
      simp only [List.cons_append, pieces, hinner, Bool.false_and, Bool.false_eq_true, if_false,
        after_plain hquote hopen hclose, ih, Text.prepend_cons]
  | @run _ q inner rest hquote hinner _ ih =>
      have hinside : atTop ⟨none, d + 1⟩ q = false := by
        simp [atTop, hquote]
      simp only [List.cons_append, List.append_assoc, pieces, hinside, Bool.false_and,
        Bool.false_eq_true, if_false, after_open_run hquote, pieces_run hinner, ih,
        Text.prepend_cons, Text.prepend_append]
  | @group _ body rest _ _ ihbody ihrest =>
      have hopen : atTop ⟨none, d + 1⟩ '(' = false := rfl
      have hclose : atTop ⟨none, d + 2⟩ ')' = false := rfl
      simp only [List.cons_append, List.append_assoc, pieces, hopen, hclose, Bool.false_and,
        Bool.false_eq_true, if_false, after_open_paren, after_close_paren, ihbody, ihrest,
        Text.prepend_cons, Text.prepend_append]

/-- Behind a text whose parentheses match and whose runs are closed, no more is open than before. -/
theorem Uncut.afterText (h : Uncut cut t) (d : Depth) :
    Nesting.afterText ⟨none, d⟩ t = ⟨none, d⟩ := by
  have hrun : ∀ {q : Char} {inner : Text}, q ∉ inner → ∀ d : Depth,
      Nesting.afterText ⟨some q, d⟩ (inner ++ [q]) = ⟨none, d⟩ := by
    intro q inner hinner d
    induction inner with
    | nil => rw [List.nil_append, afterText_cons, after_in_run, if_pos rfl, afterText_nil]
    | cons c rest ih =>
        rw [List.mem_cons, not_or] at hinner
        rw [List.cons_append, afterText_cons, after_in_run, if_neg (Ne.symm hinner.1), ih hinner.2]
  induction h generalizing d with
  | nil => rfl
  | char hquote hopen hclose _ _ ih => rw [afterText_cons, after_plain hquote hopen hclose, ih]
  | @run _ q inner rest hquote hinner _ ih =>
      rw [afterText_cons, after_open_run hquote, List.append_cons, afterText_append, hrun hinner, ih]
  | group _ _ ihbody ihrest =>
      rw [afterText_cons, after_open_paren, afterText_append, ihbody, afterText_cons,
        after_close_paren, ihrest]

/-- At top level an uncut text makes no cut. -/
theorem Uncut.pieces_append (h : Uncut cut t) (hclose : cut ')' = false) (u : Text) :
    pieces cut top (t ++ u) = Text.prepend t (pieces cut top u) := by
  induction h with
  | nil => rfl
  | @char cut c rest hquote hopen hparen hcut _ ih =>
      simp only [top] at ih ⊢
      simp only [List.cons_append, pieces, hcut, Bool.and_false, Bool.false_eq_true, if_false,
        after_plain hquote hopen hparen, ih hclose, Text.prepend_cons]
  | @run cut q inner rest hquote hinner _ ih =>
      have hinside : atTop top q = false := by
        simp [atTop, top, hquote]
      simp only [top] at ih hinside ⊢
      simp only [List.cons_append, List.append_assoc, pieces, hinside, Bool.false_and,
        Bool.false_eq_true, if_false, after_open_run hquote, pieces_run hinner, ih hclose,
        Text.prepend_cons, Text.prepend_append]
  | @group cut body rest hbody _ _ ih =>
      have hopen : atTop top '(' = false := rfl
      have hinner := hbody.pieces_append_of_inner cut 0
      simp only [top] at ih hopen ⊢
      simp only [List.cons_append, List.append_assoc, pieces, hopen, hclose, Bool.false_and,
        Bool.and_false, Bool.false_eq_true, if_false, after_open_paren, after_close_paren, hinner,
        ih hclose, Text.prepend_cons, Text.prepend_append]

theorem Uncut.pieces_eq (h : Uncut cut t) (hclose : cut ')' = false) : pieces cut top t = [t] := by
  have := h.pieces_append hclose []
  rwa [List.append_nil, pieces, Text.prepend_head, List.append_nil] at this

/-- A scan that makes no cut in a text makes none there when more follows. -/
theorem pieces_append_of_eq {s : Nesting} (h : pieces cut s t = [t]) (u : Text) :
    pieces cut s (t ++ u) = Text.prepend t (pieces cut (s.afterText t) u) := by
  induction t generalizing s with
  | nil => rfl
  | cons c rest ih =>
      rw [pieces] at h
      rw [List.cons_append, pieces, afterText_cons, Text.prepend_cons]
      split at h
      · exact absurd (List.cons.inj h).1 (List.cons_ne_nil c rest).symm
      · rename_i hcut
        have hrest : pieces cut (s.after c) rest = [rest] := by
          cases hpieces : pieces cut (s.after c) rest with
          | nil => exact absurd hpieces (pieces_ne_nil cut _ rest)
          | cons piece others =>
              rw [hpieces, Text.consHead, List.cons.injEq, List.cons.injEq] at h
              rw [h.1.2, h.2]
        rw [if_neg hcut, ih hrest]

/-- Where no character is a cut, none is made, whatever is open. -/
theorem pieces_of_forall (h : ∀ c ∈ t, cut c = false) (s : Nesting) : pieces cut s t = [t] := by
  induction t generalizing s with
  | nil => rfl
  | cons c rest ih =>
      obtain ⟨hc, hrest⟩ := List.forall_mem_cons.1 h
      rw [pieces, hc, Bool.and_false, if_neg Bool.false_ne_true, ih hrest]
      rfl

/-- Uncut texts are the pieces of their join. -/
theorem Uncut.pieces_join (sep : Char) {ts : List Text} (hsep : cut sep = true)
    (hquote : isQuote sep = false) (hopen : sep ≠ '(') (hclose : cut ')' = false) (hne : ts ≠ [])
    (hts : ∀ t ∈ ts, Uncut cut t) : pieces cut top (Text.join [sep] ts) = ts := by
  have hparen : sep ≠ ')' := by
    rintro rfl
    rw [hsep] at hclose
    exact absurd hclose.symm Bool.false_ne_true
  apply Nesting.pieces_join hne hsep
  · intro t hmem
    exact (hts t hmem).pieces_eq hclose
  · intro t hmem
    rw [atTop_iff_eq_top ⟨hquote, hopen, hparen⟩]
    exact (hts t ((List.dropLast_sublist _).subset hmem)).afterText 0

end Nesting

namespace Text

open Nesting

variable {s t : Text}

/-- Words without blanks at top level are the words of their join. -/
theorem words_join {ws : List Text} (hne : ∀ w ∈ ws, w ≠ [])
    (hws : ∀ w ∈ ws, Uncut isBlank w) : words (join [' '] ws) = ws := by
  apply words_join_gap _ _ isGap_space (List.cons_ne_nil _ _)
  · intro w hmem
    exact words_eq_singleton_iff.2 ⟨hne w hmem, (hws w hmem).pieces_eq rfl⟩
  · intro w hmem
    exact (hws w ((List.dropLast_sublist _).subset hmem)).afterText 0

/-- A single blank behind a text whose parentheses match ends the words of the text. -/
theorem words_append_space (h : Balanced t) (u : Text) :
    words (t ++ ' ' :: u) = words t ++ words u := by
  refine words_append_cons ?_ isBlank_space u
  rw [top, h.afterText]
  rfl

/-- Words joined by single blanks and a further one end where the next text begins. -/
theorem words_join_append_space {ws : List Text} (hne : ∀ w ∈ ws, w ≠ [])
    (hws : ∀ w ∈ ws, Uncut isBlank w) (u : Text) :
    words (join [' '] ws ++ ' ' :: u) = ws ++ words u := by
  have hsep : Balanced [' '] := .of_all (by decide)
  rw [words_append_space (hsep.join fun w hw => (hws w hw).balanced), words_join hne hws]

/-- The parts of a list are its entries, when each of them is tight and uncut by commas. -/
theorem map_trim_partsBetween_join {ts : List Text} (hne : ts ≠ [])
    (hts : ∀ t ∈ ts, IsTight t ∧ Uncut (· == ',') t) :
    (partsBetween ',' (join ", ".toList ts)).map trim = ts := by
  cases ts with
  | nil => exact absurd rfl hne
  | cons t others =>
      obtain ⟨⟨htight, huncut⟩, hothers⟩ := List.forall_mem_cons.1 hts
      have hpieces : ∀ u ∈ t :: others.map ([' '] ++ ·), Uncut (· == ',') u := by
        rw [List.forall_mem_cons, List.forall_mem_map]
        refine ⟨huncut, fun u hu => .char rfl (by decide) (by decide) rfl (hothers u hu).2⟩
      have hjoin : join ", ".toList (t :: others) = join [','] (t :: others.map ([' '] ++ ·)) :=
        join_cons_sep ',' [' '] t others
      rw [hjoin, partsBetween,
        Uncut.pieces_join ',' rfl rfl (by decide) rfl (List.cons_ne_nil _ _) hpieces, List.map_cons,
        List.map_map, htight.trim_eq]
      congr 1
      refine (List.map_congr_left fun u hu => ?_).trans (List.map_id others)
      have htrim : trim ([' '] ++ u) = u.trim := by rw [trim, isGap_space.trimStart_append, trim]
      exact htrim.trans (hothers u hu).1.trim_eq

/-- The group of a word stands behind the first `(`. -/
theorem splitGroup_append (hs : '(' ∉ s) (htrim : s.trimEnd = s) (ht : Balanced t) (u : Text) :
    splitGroup (s ++ '(' :: (t ++ ')' :: u)) = (s, some t) := by
  have hbefore : ∀ c ∈ s, (c != '(') = true := by
    intro c hc
    rw [bne_iff_ne]
    rintro rfl
    exact hs hc
  have hopen : ∀ c, ('(' :: (t ++ ')' :: u)).head? = some c → (c != '(') = false := by
    intro c hc
    obtain rfl := Option.some.inj hc
    rfl
  rw [splitGroup, takeWhile_append_of_head? hbefore hopen, dropWhile_append_of_head? hbefore hopen,
    ht.groupBody?_append, htrim]

end Text
end DdlDiagram
