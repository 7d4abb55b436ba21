import DdlDiagram.Proofs.Statement.Keyword
import DdlDiagram.Proofs.Text.Prepend
import DdlDiagram.Statement

/-!
# Segments word by word

A text is cut into segments in front of its boundaries, in a single scan that knows the quoted run
open at each point. Outside quoted runs it is cut in front of bare words only, so its segments
follow from its words: a word either starts a segment of its own or goes to the one before it.
Which of the two depends on the word and on what the text goes on with behind it.
-/

namespace DdlDiagram
namespace Statement

/-- Whether a boundary stands at the start of a text, which lies in a larger one: `quote` is the
quoted run open there, `previous` the character before it. -/
def isBoundary (quote : Quote) (previous : Option Char) (t : Text) : Bool :=
  quote.isNone && !previous.any isIdentifierChar && (behindHeader? t).isSome

/-- The part of a text before its first boundary, then the part from each boundary to the
next. -/
def segments (quote : Quote) (previous : Option Char) : Text → List Text
  | [] => [[]]
  | c :: rest =>
    let others := Text.consHead c (segments (quote.after c) (some c) rest)
    if isBoundary quote previous (c :: rest) then [] :: others else others

/-- The segments partition the text. -/
@[simp] theorem flatten_segments (quote : Quote) (previous : Option Char) (t : Text) :
    (segments quote previous t).flatten = t := by
  induction t generalizing quote previous with
  | nil => rfl
  | cons c rest ih => rw [segments]; split <;> simp [ih]

theorem segments_ne_nil (quote : Quote) (previous : Option Char) (t : Text) :
    segments quote previous t ≠ [] := by
  cases t with
  | nil => exact List.cons_ne_nil [] []
  | cons c rest => rw [segments]; split <;> simp

variable {quote : Quote} {previous other : Option Char} {c : Char} {t u w : Text}

theorem behindHeader?_of_startsIdentifier (h : t.startsIdentifier = false) :
    behindHeader? t = none := by
  rw [behindHeader?, Keyword.strip?_of_startsIdentifier _ h]
  rfl

theorem isBoundary_of_startsIdentifier (quote : Quote) (previous : Option Char)
    (h : t.startsIdentifier = false) : isBoundary quote previous t = false := by
  simp [isBoundary, behindHeader?_of_startsIdentifier h]

/-- The character before a text matters only if a bare word goes on there. -/
theorem segments_of_startsIdentifier (previous other : Option Char)
    (h : t.startsIdentifier = false) : segments quote previous t = segments quote other t := by
  cases t with
  | nil => rfl
  | cons c rest =>
      rw [segments, segments, isBoundary_of_startsIdentifier quote previous h,
        isBoundary_of_startsIdentifier quote other h]

theorem segments_congr (h : previous.any isIdentifierChar = other.any isIdentifierChar) :
    segments quote previous t = segments quote other t := by
  cases t with
  | nil => rfl
  | cons c rest => rw [segments, segments, isBoundary, isBoundary, h]

/-- Within a bare word there is no boundary. -/
theorem segments_within (hw : w.IsBare) (hu : u.startsIdentifier = false)
    (hprevious : previous.any isIdentifierChar = true) :
    segments none previous (w ++ u) = Text.prepend w (segments none none u) := by
  induction w generalizing previous with
  | nil => exact segments_of_startsIdentifier previous none hu
  | cons c rest ih =>
      obtain ⟨hc, hrest⟩ := List.forall_mem_cons.1 hw
      have hafter : Quote.after none c = none :=
        if_neg (by simp [isQuote_eq_false_of_isIdentifierChar hc])
      have hinner : isBoundary none previous (c :: (rest ++ u)) = false := by
        simp [isBoundary, hprevious]
      rw [List.cons_append, segments, hinner, hafter, ih hrest (by simp [hc])]
      rfl

/-- The segments of a text that starts with a bare word. -/
theorem segments_word (hw : w.IsBare) (hne : w ≠ []) (hu : u.startsIdentifier = false) :
    segments none none (w ++ u) = if (behindHeader? (w ++ u)).isSome = true then
      [] :: Text.prepend w (segments none none u) else Text.prepend w (segments none none u) := by
  cases w with
  | nil => exact absurd rfl hne
  | cons c rest =>
      obtain ⟨hc, hrest⟩ := List.forall_mem_cons.1 hw
      have hafter : Quote.after none c = none :=
        if_neg (by simp [isQuote_eq_false_of_isIdentifierChar hc])
      have hboundary : isBoundary none none (c :: rest ++ u) =
          (behindHeader? (c :: rest ++ u)).isSome := by simp [isBoundary]
      rw [List.cons_append, segments, ← List.cons_append, hboundary, hafter,
        segments_within hrest hu (by simp [hc])]
      rfl

/-- No segment starts in a text, which another one follows. -/
def Quiet (t u : Text) : Prop :=
  segments none none (t ++ u) = Text.prepend t (segments none none u)

theorem Quiet.nil (u : Text) : Quiet [] u := rfl

theorem Quiet.append {s : Text} (hs : Quiet s (t ++ u)) (ht : Quiet t u) : Quiet (s ++ t) u := by
  rw [Quiet, List.append_assoc, hs, ht, Text.prepend_append]

/-- A mark between words goes to the segment it stands in. -/
theorem Quiet.mark (hc : isIdentifierChar c = false) (hquote : isQuote c = false)
    (h : Quiet t u) : Quiet (c :: t) u := by
  have hafter : Quote.after none c = none := if_neg (by simp [hquote])
  have hstart : Text.startsIdentifier (c :: (t ++ u)) = false := hc
  have hmark : segments none (some c) (t ++ u) = segments none none (t ++ u) := segments_congr hc
  rw [Quiet, List.cons_append, segments, isBoundary_of_startsIdentifier none none hstart, hafter,
    hmark, h]
  rfl

/-- A bare word starts no segment if it is not the word `CREATE`. -/
theorem Quiet.word (hw : w.IsBare) (hne : w ≠ []) (hcreate : Keyword.create.is w = false)
    (hu : u.startsIdentifier = false) : Quiet w u := by
  have hheader : behindHeader? (w ++ u) = none := by
    rw [behindHeader?, Keyword.strip?_append hw hu, hcreate]
    rfl
  rw [Quiet, segments_word hw hne hu, hheader]
  rfl

/-- Texts that do not go on with a bare word and then, behind blanks or not, do not start with a
word that may follow `CREATE` in a header. -/
structure EndsHeader (u : Text) : Prop where
  startsIdentifier : u.startsIdentifier = false
  strip? : ∀ k ∈ [Keyword.temporary, .temp, .table], k.strip? u.trimStart = none

/-- In front of such a text no bare word starts a segment, not even the word `CREATE`. -/
theorem Quiet.word_of_endsHeader (hw : w.IsBare) (hne : w ≠ []) (hu : EndsHeader u) :
    Quiet w u := by
  have hheader : behindHeader? (w ++ u) = none := by
    have htemporary := hu.strip? .temporary (by simp)
    have htemp := hu.strip? .temp (by simp)
    have htable := hu.strip? .table (by simp)
    rw [behindHeader?, Keyword.strip?_append hw hu.startsIdentifier]
    cases Keyword.create.is w with
    | false => rfl
    | true =>
        cases hblank : u.startsBlank with
        | false => simp [skipBlanks?, hblank]
        | true => simp [skipBlanks?, hblank, htemporary, htemp, htable]
  rw [Quiet, segments_word hw hne hu.startsIdentifier, hheader]
  rfl

theorem EndsHeader.mark (hc : isIdentifierChar c = false) (hblank : isBlank c = false)
    (u : Text) : EndsHeader (c :: u) where
  startsIdentifier := hc
  strip? := by
    intro k _
    have hstart : Text.startsIdentifier (c :: u) = false := hc
    rw [Text.trimStart_of_startsBlank_eq_false (t := c :: u) hblank,
      Keyword.strip?_of_startsIdentifier k hstart]

/-- Blanks in front make no difference. -/
theorem EndsHeader.blank (hblank : isBlank c = true) (hu : EndsHeader u) :
    EndsHeader (c :: u) where
  startsIdentifier := isIdentifierChar_eq_false_of_isBlank hblank
  strip? := by
    have htrim : Text.trimStart (c :: u) = u.trimStart := List.dropWhile_cons_of_pos hblank
    rw [htrim]
    exact hu.strip?

/-- Words that neither start a header nor may follow `CREATE` in one. -/
structure IsPlain (w : Text) : Prop where
  isBare : w.IsBare
  ne_nil : w ≠ []
  is : ∀ k ∈ [Keyword.create, .temporary, .temp, .table], k.is w = false

theorem EndsHeader.word (hw : IsPlain w) (hu : u.startsIdentifier = false) :
    EndsHeader (' ' :: (w ++ u)) where
  startsIdentifier := rfl
  strip? := by
    intro k hk
    have htrim : Text.trimStart (' ' :: (w ++ u)) = w ++ u := by
      refine (Text.isGap_space.trimStart_append (w ++ u)).trans
        (Text.trimStart_of_startsBlank_eq_false ?_)
      cases w with
      | nil => exact absurd rfl hw.ne_nil
      | cons c rest =>
          exact isBlank_eq_false_of_isIdentifierChar (hw.isBare c List.mem_cons_self)
    rw [htrim, Keyword.strip?_append hw.isBare hu, hw.is k (List.mem_cons_of_mem _ hk),
      if_neg Bool.false_ne_true]

theorem startsIdentifier_flatMap (ws : List Text) (hu : u.startsIdentifier = false) :
    Text.startsIdentifier (ws.flatMap (' ' :: ·) ++ u) = false := by
  cases ws with
  | nil => exact hu
  | cons w rest => rfl

/-- No segment starts in a row of plain words. -/
theorem Quiet.words {ws : List Text} (hws : ∀ w ∈ ws, IsPlain w)
    (hu : u.startsIdentifier = false) : Quiet (ws.flatMap (' ' :: ·)) u := by
  induction ws with
  | nil => exact .nil u
  | cons w rest ih =>
      obtain ⟨hw, hrest⟩ := List.forall_mem_cons.1 hws
      have hcreate := hw.is .create (by simp)
      have hword := Quiet.word hw.isBare hw.ne_nil hcreate (startsIdentifier_flatMap rest hu)
      rw [List.flatMap_cons, List.cons_append]
      exact .mark rfl rfl (hword.append (ih hrest))

theorem EndsHeader.words {ws : List Text} (hws : ∀ w ∈ ws, IsPlain w) (hu : EndsHeader u) :
    EndsHeader (ws.flatMap (' ' :: ·) ++ u) := by
  cases ws with
  | nil => exact hu
  | cons w rest =>
      rw [List.flatMap_cons, List.cons_append, List.cons_append, List.append_assoc]
      exact .word (List.forall_mem_cons.1 hws).1 (startsIdentifier_flatMap rest hu.startsIdentifier)

end Statement
end DdlDiagram
