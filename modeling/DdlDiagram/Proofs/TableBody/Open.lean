import DdlDiagram.Proofs.Declaration.Literal
import DdlDiagram.Proofs.Statement.Seam
import DdlDiagram.Proofs.TableBody.Names

/-!
# Chunks that break off in the body of their table

Such a chunk has its name and some of its body, and what follows it in the text goes on with the
body. Its last declaration goes on up to the next comma, or up to the end of the body.
-/

namespace DdlDiagram

open Nesting

variable {chunk body line t u v name contents other : Text} {b : Char}

namespace TableBody

/-- What a chunk has of the body of its table, if it breaks off directly in the body: with no
quoted run open there, and no parenthesis but the one that the body starts with. -/
def openBody? (chunk : Text) : Option Text :=
  match name? (behindIfNotExists chunk.trimStart) with
  | none => none
  | some (_, rest) =>
    match rest.dropWhile (· != '(') with
    | [] => none
    | group =>
      if (Text.groupBody? group).isNone &&
          Nesting.afterText { depth := 1 } group.tail == { depth := 1 } then some group.tail
      else none

theorem exists_of_openBody? (h : openBody? chunk = some body) : ∃ name rest,
    name? (behindIfNotExists chunk.trimStart) = some (name, rest) ∧
      rest.dropWhile (· != '(') = '(' :: body ∧ upToClose ⟨none, 1⟩ body = none ∧
      Nesting.afterText ⟨none, 1⟩ body = ⟨none, 1⟩ := by
  unfold openBody? at h
  split at h
  · exact nomatch h
  · rename_i name rest hname
    cases hgroup : rest.dropWhile (· != '(') with
    | nil => simp [hgroup] at h
    | cons c group =>
        have hhead := List.head?_dropWhile_not (· != '(') rest
        simp only [hgroup, List.head?_cons, bne_eq_false_iff_eq] at hhead
        subst hhead
        simp only [hgroup, List.tail_cons, Option.ite_none_right_eq_some, Option.some.injEq,
          Bool.and_eq_true, Option.isNone_iff_eq_none, beq_iff_eq] at h
        obtain ⟨⟨hclose, hopen⟩, rfl⟩ := h
        exact ⟨name, rest, hname, hgroup, hclose, hopen⟩

/-- Texts that go on with no name: they start neither with a blank nor with a bare word or a
point. -/
structure EndsName (v : Text) : Prop where
  startsBlank : v.startsBlank = false
  startsIdentifier : v.startsIdentifier = false
  head? : v.head? ≠ some '.'

theorem endsName_literal (contents u : Text) : EndsName (literal contents ++ u) :=
  ⟨rfl, rfl, by simp [literal]⟩

namespace EndsName

theorem trimStart_append (hv : EndsName v) (t : Text) :
    (t ++ v).trimStart = t.trimStart ++ v := by
  rcases Statement.restsBefore_trimStart v t with h | ⟨hnil, h⟩
  · exact h
  · rw [hnil, h, Text.trimStart_of_startsBlank_eq_false hv.startsBlank]
    rfl

theorem behindIfNotExists_append (hv : EndsName v) (t : Text) :
    behindIfNotExists (t ++ v) = behindIfNotExists t ++ v := by
  have hskip : ∀ (k : Keyword) (t : Text),
      Option.Rel (fun r r' => r' = r ++ v) (skip? k t) (skip? k (t ++ v)) := by
    intro k t
    refine (Statement.strip?_append hv.startsIdentifier k t).map fun r r' hr => ?_
    rw [hr, hv.trimStart_append]
  have hwords : Option.Rel (fun r r' => r' = r ++ v)
      ((skip? .ifWord t).bind fun u => (skip? .notWord u).bind (skip? .existsWord))
      ((skip? .ifWord (t ++ v)).bind fun u => (skip? .notWord u).bind (skip? .existsWord)) := by
    apply (hskip .ifWord t).bind
    rintro u _ rfl
    apply (hskip .notWord u).bind
    rintro w _ rfl
    exact hskip .existsWord w
  exact hwords.getD rfl

theorem segment?_append (hv : EndsName v) {x : Text × Text} (h : segment? t = some x) :
    segment? (t ++ v) = some (x.1, x.2 ++ v) := by
  obtain ⟨hraw, hname⟩ := Option.filter_eq_some_iff.1 h
  suffices hsame : rawSegment? (t ++ v) = some (x.1, x.2 ++ v) by
    rw [segment?, hsame, Option.filter_some, if_pos hname]
  cases t with
  | nil => cases hraw
  | cons c rest =>
      rw [List.cons_append, rawSegment?]
      rw [rawSegment?] at hraw
      split at hraw
      · rename_i close hclose
        have hsplit := Text.splitOnce_eq_append hraw
        simp only [hsplit, List.append_assoc, List.cons_append]
        exact Text.splitOnce_append (Text.not_mem_of_splitOnce hraw) (x.2 ++ v)
      · rename_i hclose
        obtain ⟨htake, hdrop⟩ := Text.run_append (p := isIdentifierChar)
          (Text.head?_of_startsIdentifier hv.startsIdentifier) (c :: rest)
        rw [List.cons_append] at htake hdrop
        obtain rfl := Option.some.inj hraw
        simp only [htake, hdrop]

/-- A name is read the same in front of what goes on with none. -/
theorem name?_append (hv : EndsName v) (h : name? t = some (name, u)) :
    name? (t ++ v) = some (name, u ++ v) := by
  fun_induction name? t with
  | case1 => cases h
  | case2 t first rest hx next hpoint ih =>
      have hbehind : (rest ++ v).trimStart = '.' :: (next ++ v) := by
        rw [hv.trimStart_append, hpoint]
        rfl
      rw [name?_of_point (hv.segment?_append hx) hbehind, hv.trimStart_append]
      exact ih h
  | case3 t last rest hx hlast =>
      have hbehind : ∀ r, (rest ++ v).trimStart ≠ '.' :: r := by
        intro r hr
        rw [hv.trimStart_append] at hr
        cases htrim : rest.trimStart with
        | nil =>
            rw [htrim, List.nil_append] at hr
            exact hv.head? (by rw [hr]; rfl)
        | cons c others =>
            rw [htrim, List.cons_append, List.cons.injEq] at hr
            exact hlast others (by rw [htrim, hr.1])
      obtain ⟨rfl, rfl⟩ := Prod.mk.inj (Option.some.inj h)
      exact name?_of_not_point (hv.segment?_append hx) hbehind

end EndsName

/-- A chunk goes on with its body: it declares a table if the body is closed in what follows. -/
theorem exists_ofChunk_append (h : openBody? chunk = some body) : ∃ name, ∀ v, EndsName v →
    ofChunk (chunk ++ v) = match upToClose ⟨none, 1⟩ v with
      | none => .error .unclosedBody
      | some others => .ok ⟨name, declarationsOf (body ++ others)⟩ := by
  obtain ⟨name, rest, hname, hgroup, hclose, hopen⟩ := exists_of_openBody? h
  refine ⟨name, fun v hv => ?_⟩
  have hrest : (rest ++ v).dropWhile (· != '(') = '(' :: (body ++ v) := by
    rw [List.dropWhile_append, hgroup]
    rfl
  have hbody : Text.groupBody? ('(' :: (body ++ v)) =
      (upToClose ⟨none, 1⟩ v).map (body ++ ·) := by
    rw [Text.groupBody?_open, upToClose_append hclose, hopen]
  rw [ofChunk, hv.trimStart_append, hv.behindIfNotExists_append, hv.name?_append hname]
  simp only [hrest, hbody]
  cases upToClose ⟨none, 1⟩ v <;> rfl

/-- Whether a modifier of a column ends in front of a character, in the body of a table. -/
def endsModifier (c : Char) : Bool := isBlank c || c == ',' || c == ')'

theorem endsModifier_iff : endsModifier b = true ↔ isBlank b = true ∨ b = ',' ∨ b = ')' := by
  simp [endsModifier, or_assoc]

/-- Such a character is neither part of a word nor of a mark or a quoted run. -/
theorem plain_of_endsModifier (hb : endsModifier b = true) :
    isIdentifierChar b = false ∧ isQuote b = false ∧ Token.isBreak b = true := by
  obtain hblank | rfl | rfl := endsModifier_iff.1 hb
  · refine ⟨isIdentifierChar_eq_false_of_isBlank hblank, Token.not_isQuote_of_isBlank hblank, ?_⟩
    simp [Token.isBreak, hblank]
  · decide
  · decide

/-- Up to the next comma a body goes on with nothing or with a blank. -/
theorem exists_partsBetween_of_endsModifier (hb : endsModifier b = true)
    (h : upToClose ⟨none, 1⟩ (b :: u) = some body) : ∃ part others,
      body.partsBetween ',' = part :: others ∧ (part = [] ∨ part.startsBlank = true) := by
  rw [upToClose] at h
  obtain hblank | rfl | rfl := endsModifier_iff.1 hb
  · have hclose : ¬ (b = ')' ∧ atTop ⟨none, 1⟩ b = true) := by
      rintro ⟨hb, -⟩
      exact Text.ne_of_isBlank hblank rfl hb
    rw [if_neg hclose, Option.map_eq_some_iff] at h
    obtain ⟨rest, -, rfl⟩ := h
    cases hparts : top.pieces (· == ',') rest with
    | nil => exact absurd hparts (pieces_ne_nil _ _ _)
    | cons part others =>
        refine ⟨b :: part, others, ?_, .inr hblank⟩
        have hafter : top.after b = top := after_of_isBlank hblank rfl
        rw [Text.partsBetween, pieces, not_comma_of_isBlank top hblank, hafter, hparts]
        rfl
  · obtain ⟨rest, -, rfl⟩ := Option.map_eq_some_iff.1 h
    exact ⟨[], Text.partsBetween ',' rest, rfl, .inl rfl⟩
  · obtain rfl := Option.some.inj h
    exact ⟨[], [], rfl, .inl rfl⟩

def read (body : TableBody) : Text × List Declaration :=
  (body.name, body.declarations.map Declaration.ofText)

def readChunk (chunk : Text) : Except Fault (Text × List Declaration) := (ofChunk chunk).map read

/-- In a declaration that breaks off among modifiers, a literal with the end of a modifier behind
it makes the same declarations whatever it holds. -/
theorem readChunk_append_literal (h : openBody? chunk = some body)
    (hline : (body.partsBetween ',').getLast? = some line)
    (hmodifiers : Declaration.EndsInModifiers line) (hb : endsModifier b = true)
    (hcontents : '\'' ∉ contents) (hother : '\'' ∉ other) (u : Text) :
    readChunk (chunk ++ (literal contents ++ b :: u)) =
      readChunk (chunk ++ (literal other ++ b :: u)) := by
  obtain ⟨name, hchunk⟩ := exists_ofChunk_append h
  obtain ⟨-, -, -, -, hclose, hopen⟩ := exists_of_openBody? h
  obtain ⟨front, hfront⟩ := List.getLast?_eq_some_iff.1 hline
  have hbody := afterText_eq_top hclose hopen
  have hscan : ∀ contents : Text, '\'' ∉ contents →
      upToClose ⟨none, 1⟩ (literal contents ++ b :: u) =
        (upToClose ⟨none, 1⟩ (b :: u)).map (literal contents ++ ·) := fun contents hcontents =>
    (uncut_literal hcontents fun _ => false).upToClose_append 0 (b :: u)
  rw [readChunk, readChunk, hchunk _ (endsName_literal contents _),
    hchunk _ (endsName_literal other _), hscan contents hcontents, hscan other hother]
  cases hrest : upToClose ⟨none, 1⟩ (b :: u) with
  | none => rfl
  | some rest =>
      obtain ⟨part, others, hpart, hends⟩ := exists_partsBetween_of_endsModifier hb hrest
      have hparts := fun (contents : Text) (hcontents : '\'' ∉ contents) =>
        Text.partsBetween_append (by decide) hbody hfront (uncut_literal hcontents _) hpart
      have htop := (hparts contents hcontents).2
      have hread : ∀ contents : Text, '\'' ∉ contents →
          (declarationsOf (body ++ (literal contents ++ rest))).map Declaration.ofText =
            (((front.map Text.trim).filter (!·.isEmpty)).map Declaration.ofText) ++
              .ofText (Text.trim (line ++ (literal contents ++ part))) ::
                ((others.map Text.trim).filter (!·.isEmpty)).map Declaration.ofText := by
        intro contents hcontents
        have hne : Text.trim (line ++ (literal contents ++ part)) ≠ [] := by
          rw [Text.trim_append_literal hmodifiers.not_isGap]
          simp [literal]
        rw [declarationsOf, (hparts contents hcontents).1, List.map_append, List.filter_append,
          List.map_cons, List.filter_cons_of_pos (by simpa using hne), List.map_append,
          List.map_cons]
      have hsame := hmodifiers.ofText_eq htop hends hcontents hother
      simp only [Option.map_some, Except.map, read, hread contents hcontents,
        hread other hother, hsame]

end TableBody
end DdlDiagram
