import DdlDiagram.Proofs.Cleaned.Open
import DdlDiagram.Proofs.Reading.Parts
import DdlDiagram.Proofs.TableBody.Open

/-!
# What string literals among modifiers hold is not read

A string literal among the modifiers of a column is passed over by every scan: it hides marks of
comments, boundaries, parentheses, commas and keywords alike. So a text that breaks off there is
read the same with any literal, up to and with its warnings.
-/

namespace DdlDiagram

open Token

variable {marks : List Text} {s t u u' r v chunk line contents other : Text} {b c : Char}

theorem Token.closedRun_of_not_mem {quote : Char} (h : quote ∉ t) :
    ClosedRun quote (t ++ [quote]) := by
  induction t with
  | nil => exact .close
  | cons c rest ih =>
      rw [List.mem_cons, not_or] at h
      exact .char (Ne.symm h.1) (ih h.2)

namespace Cleaned

/-- A literal is kept, and the text behind it is cleaned on its own. -/
theorem EndsInCode.ofText_append_literal (h : EndsInCode marks t) (hcontents : '\'' ∉ contents)
    (hfeed : '\n' ∉ contents) (u : Text) : ofText marks (t ++ (literal contents ++ u)) =
      (ofText marks t).append ((ofRest marks (.code none) u).behind (literal contents)) := by
  have hrun : '\n' ∉ contents ++ ['\''] := by simpa using hfeed
  have hclosed := passes_closedRun rfl (closedRun_of_not_mem hcontents) hrun u
  have hpasses := Passes.step (step_open rfl _) hclosed
  rw [literal, List.cons_append, h.ofText_append rfl (by decide) (by decide), hpasses.ofRest_eq]
  rfl

/-- A character that is part of no mark is kept. -/
theorem exists_ofRest_cons (hb : TableBody.endsModifier b = true) (marks : List Text) (t : Text) :
    ∃ r, (ofRest marks (.code none) (b :: t)).text = b :: r := by
  by_cases hfeed : b = '\n'
  · have hrest := ofRest_append_feed List.not_mem_nil marks (.code none) t
    rw [hfeed]
    rw [List.nil_append] at hrest
    exact ⟨_, congrArg Cleaned.text hrest⟩
  · obtain ⟨-, hquote, hbreak⟩ := TableBody.plain_of_endsModifier hb
    obtain ⟨hdash, hslash⟩ := ne_of_isBreak hbreak
    obtain ⟨hline, hblock⟩ := marks_of_ne hdash hslash t
    have hrest := (Step.plain hfeed hquote hline hblock).ofRest_eq marks
    exact ⟨_, congrArg Cleaned.text hrest⟩

end Cleaned

namespace Statement

theorem quiet_literal (hcontents : '\'' ∉ contents) (hr : r.startsIdentifier = false) :
    Quiet (literal contents) r := by
  have hrun : ∀ (previous : Option Char),
      segments (some '\'') previous (contents ++ '\'' :: r) =
        Text.prepend (contents ++ ['\'']) (segments none none r) := by
    induction contents with
    | nil =>
        intro previous
        rw [List.nil_append, segments, isBoundary, Quote.after_close,
          segments_of_startsIdentifier (some '\'') none hr]
        rfl
    | cons c rest ih =>
        intro previous
        rw [List.mem_cons, not_or] at hcontents
        have hafter : Quote.after (some '\'') c = some '\'' := if_neg (Ne.symm hcontents.1)
        rw [List.cons_append, segments, isBoundary, hafter, ih hcontents.2]
        rfl
  have hquote : isIdentifierChar '\'' = false := by decide
  have hstart : Text.startsIdentifier ('\'' :: (contents ++ '\'' :: r)) = false := hquote
  rw [Quiet, literal, List.cons_append, List.append_assoc, List.singleton_append, segments,
    isBoundary_of_startsIdentifier none none hstart, Quote.after_open rfl, hrun]
  rfl

/-- Chunks of two texts that differ within the last chunk of their common front are mapped to the
same if the two versions of that chunk are. -/
theorem map_chunks_append {α : Type} {f : Text → α} (ht : Quote.afterText none t = none)
    (hchunk : (chunks t).getLast? = some chunk) (hc : isIdentifierChar c = false)
    (hu : Quiet u (c :: r)) (hu' : Quiet u' (c :: r)) (hends : ∀ v, EndsHeader (u ++ v))
    (hends' : ∀ v, EndsHeader (u' ++ v))
    (h : ∀ v, f (chunk ++ (u ++ c :: v)) = f (chunk ++ (u' ++ c :: v))) :
    (chunks (t ++ (u ++ c :: r))).map f = (chunks (t ++ (u' ++ c :: r))).map f := by
  -- The segments behind the front do not depend on what stands between.
  have hstart : Text.startsIdentifier (c :: r) = false := hc
  obtain ⟨part, others, hrest⟩ : ∃ part others,
      segments none none (c :: r) = (c :: part) :: others := by
    rw [segments, isBoundary_of_startsIdentifier none none hstart]
    cases segments (Quote.after none c) (some c) r with
    | nil => exact ⟨[], [], rfl⟩
    | cons part others => exact ⟨part, others, rfl⟩
  obtain ⟨front, last, heq, -⟩ := segments_append (hends []) none none t
  have hcut : ∀ u, Quiet u (c :: r) → (∀ v, EndsHeader (u ++ v)) →
      segments none none (t ++ (u ++ c :: r)) = front ++ (last ++ (u ++ c :: part)) :: others := by
    intro u hu hends
    obtain ⟨front', last', heq', hcut⟩ := segments_append (hends (c :: r)) none none t
    obtain ⟨rfl, hsame⟩ := List.append_inj' (heq'.symm.trans heq) rfl
    obtain rfl := (List.cons.inj hsame).1
    rw [hcut, ht, hu, hrest, Text.prepend_head, Text.prepend_head]
  cases front with
  | nil =>
      rw [chunks_eq, heq] at hchunk
      cases hchunk
  | cons first front =>
      rw [chunks_eq, chunks_eq, hcut u hu hends, hcut u' hu' hends', List.cons_append,
        List.cons_append, List.tail_cons, List.tail_cons, List.filterMap_append,
        List.filterMap_append, List.filterMap_cons, List.filterMap_cons]
      rw [chunks_eq, heq, List.cons_append, List.tail_cons, List.filterMap_append] at hchunk
      have hsame : ∀ u, (∀ v, EndsHeader (u ++ v)) →
          Option.Rel (fun r r' => r' = r ++ (u ++ c :: part)) (behindHeader? last)
            (behindHeader? (last ++ (u ++ c :: part))) := fun u hends =>
        (hends (c :: part)).behindHeader?_append last
      have hlast := hsame u hends
      have hlast' := hsame u' hends'
      cases hheader : behindHeader? last with
      | none =>
          rw [hheader] at hlast hlast'
          rw [hlast.eq_none, hlast'.eq_none]
      | some body =>
          rw [List.filterMap_cons, hheader] at hchunk
          obtain rfl : body = chunk := by simpa using hchunk
          rw [hheader] at hlast hlast'
          obtain ⟨r, hr, rfl⟩ := hlast.exists_of_some
          obtain ⟨r', hr', rfl⟩ := hlast'.exists_of_some
          simp [hr, hr', h]

end Statement

namespace Reading

theorem tableOf_congr {body body' : TableBody} (h : body'.read = body.read) :
    tableOf body' = tableOf body := by
  obtain ⟨hname, hdeclarations⟩ := Prod.mk.inj h
  have hshares : sharesOf body'.name body'.declarations = sharesOf body.name body.declarations := by
    have hmap := congrArg (List.map (Share.ofDeclaration body.name)) hdeclarations
    rw [List.map_map, List.map_map] at hmap
    rw [hname]
    exact hmap
  have hshare : body'.share = body.share := congrArg Share.all hshares
  rw [tableOf_eq, tableOf_eq, TableBody.toTable, TableBody.toTable, hname, hshare]

theorem addChunk_congr {chunk chunk' : Text}
    (h : TableBody.readChunk chunk' = TableBody.readChunk chunk) (d : SchemaDraft) (index : Nat) :
    addChunk d index chunk' = addChunk d index chunk := by
  rw [TableBody.readChunk, TableBody.readChunk] at h
  rw [addChunk, addChunk]
  cases hread : TableBody.ofChunk chunk with
  | error reason =>
      cases hread' : TableBody.ofChunk chunk' with
      | error reason' =>
          rw [hread, hread'] at h
          rw [Except.error.inj h]
      | ok body' =>
          rw [hread, hread'] at h
          cases h
  | ok body =>
      cases hread' : TableBody.ofChunk chunk' with
      | error reason' =>
          rw [hread, hread'] at h
          cases h
      | ok body' =>
          rw [hread, hread'] at h
          have hsame := Except.ok.inj h
          simp only [tableOf_congr hsame, (Prod.mk.inj hsame).1]

/-- Chunks of which the same is read make the same reading. -/
theorem ofParts_congr_read {chunks chunks' : List Text}
    (h : chunks'.map TableBody.readChunk = chunks.map TableBody.readChunk)
    (bodies : List Text) : ofParts chunks' bodies = ofParts chunks bodies := by
  have hadd : ∀ (d : SchemaDraft) (index : Nat),
      addChunks d index chunks' = addChunks d index chunks := by
    induction chunks generalizing chunks' with
    | nil => rw [List.map_eq_nil_iff.1 h]; exact fun _ _ => rfl
    | cons chunk rest ih =>
        obtain ⟨chunk', rest', rfl, hchunk, hrest⟩ := List.map_eq_cons_iff.1 h
        intro d index
        have hfirst := addChunk_congr hchunk d index
        rw [addChunks, addChunks, hfirst, ih hrest]
  rw [ofParts_eq, ofParts_eq, hadd]

/-- What a text has of a declaration, if it breaks off in one: outside of quoted runs, and directly
in the body of its last chunk. -/
def openDeclaration? (t : Text) : Option Text :=
  if Quote.afterText none t = none then do
    let chunk ← (Statement.chunks t).getLast?
    let body ← TableBody.openBody? chunk
    (body.partsBetween ',').getLast?
  else none

/-- Where a text breaks off among the modifiers of a column, what a string literal holds makes no
difference to the reading. -/
theorem ofText?_literal (hA : Cleaned.EndsInCode marks s)
    (hline : openDeclaration? (Cleaned.ofText marks s).text = some line)
    (hmodifiers : Declaration.EndsInModifiers line) (hb : TableBody.endsModifier b = true)
    (hcontents : '\'' ∉ contents ∧ '\n' ∉ contents) (hother : '\'' ∉ other ∧ '\n' ∉ other)
    (t : Text) : ofText? marks (s ++ '\'' :: (contents ++ '\'' :: b :: t)) =
      ofText? marks (s ++ '\'' :: (other ++ '\'' :: b :: t)) := by
  simp only [openDeclaration?, Option.ite_none_right_eq_some, Option.bind_eq_bind,
    Option.bind_eq_some_iff] at hline
  obtain ⟨hquote, chunk, hchunk, body, hbody, hlast⟩ := hline
  obtain ⟨r, hr⟩ := Cleaned.exists_ofRest_cons hb marks t
  have hid := (TableBody.plain_of_endsModifier hb).1
  have hends : ∀ contents v, Statement.EndsHeader (literal contents ++ v) := fun contents v =>
    .mark (by decide) (by decide) _
  have hread := Statement.map_chunks_append hquote hchunk hid
    (Statement.quiet_literal hcontents.1 (r := b :: r) hid)
    (Statement.quiet_literal hother.1 (r := b :: r) hid) (hends contents) (hends other)
    fun v => TableBody.readChunk_append_literal hbody hlast hmodifiers hb hcontents.1 hother.1 v
  have hclean : ∀ contents : Text, '\'' ∉ contents ∧ '\n' ∉ contents →
      (Cleaned.ofText marks (s ++ '\'' :: (contents ++ '\'' :: b :: t))).text =
          (Cleaned.ofText marks s).text ++ (literal contents ++ b :: r) ∧
        (Cleaned.ofText marks (s ++ '\'' :: (contents ++ '\'' :: b :: t))).directives =
          (Cleaned.ofText marks s).directives ++
            (Cleaned.ofRest marks (.code none) (b :: t)).directives := by
    intro contents hcontents
    have happend := hA.ofText_append_literal hcontents.1 hcontents.2 (b :: t)
    rw [literal, List.cons_append, List.append_assoc, List.singleton_append] at happend
    rw [happend, ← hr]
    exact ⟨rfl, rfl⟩
  obtain ⟨htext, hdirectives⟩ := hclean contents hcontents
  obtain ⟨htext', hdirectives'⟩ := hclean other hother
  have hempty := congrArg List.isEmpty hread
  rw [List.isEmpty_map, List.isEmpty_map] at hempty
  rw [ofText?, ofText?, htext, htext', hdirectives, hdirectives', ofParts_congr_read hread, hempty]

/-- A text that breaks off among modifiers, behind a name with a parenthesis and a comment. -/
def beforeDefault : Text :=
  "CREATE TABLE [a(b] ( -- ' c\n  x INT(1) NOT NULL, d VARCHAR (2) /* e */ DEFAULT ".toList

def loud : Text := "), -- /* \" NOT NULL REFERENCES (CREATE TABLE c (d INT)".toList

theorem ofText?_literal_loud :
    ofText? Directive.defaultMarks
        (beforeDefault ++ '\'' :: (loud ++ '\'' :: ' ' :: "NOT NULL, PRIMARY KEY (d));".toList)) =
      ofText? Directive.defaultMarks
        (beforeDefault ++ '\'' :: ([] ++ '\'' :: ' ' :: "NOT NULL, PRIMARY KEY (d));".toList)) := by
  have hcode : Cleaned.EndsInCode Directive.defaultMarks beforeDefault := by decide +kernel
  have hline : openDeclaration? (Cleaned.ofText Directive.defaultMarks beforeDefault).text =
      some " d VARCHAR (2)   DEFAULT ".toList := by decide +kernel
  have hmodifiers : Declaration.EndsInModifiers " d VARCHAR (2)   DEFAULT ".toList :=
    ⟨by decide +kernel, by decide +kernel, by decide +kernel, by decide +kernel⟩
  exact ofText?_literal hcode hline hmodifiers rfl (by decide +kernel) (by decide +kernel) _

end Reading
end DdlDiagram
