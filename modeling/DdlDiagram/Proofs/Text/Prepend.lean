import DdlDiagram.Text.Basic
import Mathlib.Data.List.Forall2

/-!
# Texts in front of cut texts

A scan that cuts a text hands the characters it passes over to the first part of what follows.
Passing over a whole text puts it in front of that part, so a part is known as soon as its text
and the cut behind it are. Two texts that are cut alike stay so when texts are put in front.
-/

namespace DdlDiagram
namespace Text

def prepend (t : Text) (parts : List Text) : List Text := t.foldr consHead parts

@[simp] theorem prepend_nil (parts : List Text) : prepend [] parts = parts := rfl

@[simp] theorem prepend_cons (c : Char) (t : Text) (parts : List Text) :
    prepend (c :: t) parts = consHead c (prepend t parts) := rfl

theorem prepend_append (t u : Text) (parts : List Text) :
    prepend (t ++ u) parts = prepend t (prepend u parts) := List.foldr_append

@[simp] theorem prepend_head (t part : Text) (others : List Text) :
    prepend t (part :: others) = (t ++ part) :: others := by
  induction t with
  | nil => rfl
  | cons c rest ih => rw [prepend_cons, ih]; rfl

/-- The parts that are not empty correspond. -/
def FilledAlike (R : Text → Text → Prop) (parts parts' : List Text) : Prop :=
  List.Forall₂ R (parts.filter (!·.isEmpty)) (parts'.filter (!·.isEmpty))

/-- Two texts cut into parts. The first parts may go on from what stands in front of them, so they
correspond in one way, and the parts behind them in another. -/
inductive CutAlike (R : Text → Text → Prop) (S : List Text → List Text → Prop) :
    List Text → List Text → Prop
  | intro {first first' : Text} {others others' : List Text} (hfirst : R first first')
      (hothers : S others others') : CutAlike R S (first :: others) (first' :: others')

namespace CutAlike

variable {R Q : Text → Text → Prop} {S : List Text → List Text → Prop} {parts parts' : List Text}

/-- Texts and one more character in front of the first parts. -/
theorem prepend_consHead (h : CutAlike R S parts parts') (g g' : Text) (c : Char)
    (hfirst : ∀ first first', R first first' → Q (g ++ c :: first) (g' ++ c :: first')) :
    CutAlike Q S (prepend g (consHead c parts)) (prepend g' (consHead c parts')) := by
  obtain ⟨hparts, hothers⟩ := h
  simp only [consHead, prepend_head]
  exact .intro (hfirst _ _ hparts) hothers

theorem consHead (h : CutAlike R S parts parts') (c : Char)
    (hfirst : ∀ first first', R first first' → Q (c :: first) (c :: first')) :
    CutAlike Q S (Text.consHead c parts) (Text.consHead c parts') :=
  h.prepend_consHead [] [] c hfirst

theorem tail (h : CutAlike R S parts parts') : S parts.tail parts'.tail := by
  obtain ⟨-, hothers⟩ := h
  exact hothers

theorem forall₂ (h : CutAlike R (List.Forall₂ R) parts parts') : List.Forall₂ R parts parts' := by
  obtain ⟨hfirst, hothers⟩ := h
  exact .cons hfirst hothers

theorem filledAlike (h : CutAlike R (FilledAlike R) parts parts')
    (hempty : ∀ part part', R part part' → part'.isEmpty = part.isEmpty) :
    FilledAlike R parts parts' := by
  obtain ⟨hfirst, hothers⟩ := h
  rw [FilledAlike, List.filter_cons, List.filter_cons, hempty _ _ hfirst]
  split
  · exact .cons hfirst hothers
  · exact hothers

end CutAlike

@[simp] theorem join_nil (sep : Text) : join sep [] = [] := rfl

@[simp] theorem join_singleton (sep t : Text) : join sep [t] = t := rfl

theorem join_cons_cons (sep t u : Text) (rest : List Text) :
    join sep (t :: u :: rest) = t ++ sep ++ join sep (u :: rest) := rfl

/-- A separator of several characters is its first one, with the others in front of the text that
follows. -/
theorem join_cons_sep (c : Char) (sep t : Text) (others : List Text) :
    join (c :: sep) (t :: others) = join [c] (t :: others.map (sep ++ ·)) := by
  induction others generalizing t with
  | nil => rfl
  | cons u rest ih =>
      rw [join_cons_cons, ih, List.map_cons, join_cons_cons]
      cases rest with
      | nil => simp
      | cons v others => simp [join_cons_cons]

/-- Of several texts joined, each but the first stands behind a separator. -/
theorem join_cons (sep t : Text) (others : List Text) :
    join sep (t :: others) = t ++ others.flatMap (sep ++ ·) := by
  induction others generalizing t with
  | nil => simp
  | cons u rest ih =>
      rw [join_cons_cons, ih, List.flatMap_cons, List.append_assoc, List.append_assoc]

end Text
end DdlDiagram
