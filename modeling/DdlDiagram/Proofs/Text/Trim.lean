import DdlDiagram.Text.Basic
import Mathlib.Data.List.DropRight

/-!
# Trimming at the ends

A gap is a text of blanks only. Trimming takes a gap off either end and stops at the first
character that is not blank, so it reaches into a text only as far as its blanks go. Most
lemmas here say which part of an append a trim can reach.
-/

namespace DdlDiagram
namespace Text

def IsGap (t : Text) : Prop := ∀ c ∈ t, isBlank c = true

variable {s t g : Text} {c : Char}

@[simp] theorem isGap_nil : IsGap [] := by simp [IsGap]

@[simp] theorem isGap_cons : IsGap (c :: t) ↔ isBlank c = true ∧ IsGap t := by simp [IsGap]

theorem isGap_space : IsGap [' '] := isGap_cons.2 ⟨isBlank_space, isGap_nil⟩

theorem isGap_feed : IsGap ['\n'] := isGap_cons.2 ⟨isBlank_newline, isGap_nil⟩

@[simp] theorem isGap_append : IsGap (s ++ t) ↔ IsGap s ∧ IsGap t := by
  simp only [IsGap, List.mem_append]
  constructor
  · intro h
    exact ⟨fun c hc => h c (.inl hc), fun c hc => h c (.inr hc)⟩
  · rintro ⟨hs, ht⟩ c (hc | hc)
    · exact hs c hc
    · exact ht c hc

/-- Of two different kinds of characters, the blank ones and the others, each has its own. -/
theorem ne_of_isBlank {b : Bool} {d : Char} (hc : isBlank c = b) (hd : isBlank d = !b) :
    c ≠ d := by
  rintro rfl
  rw [hc] at hd
  exact (Bool.eq_not_self b).1 hd

theorem IsGap.bne {d : Char} (hg : IsGap s) (hd : isBlank d = false) : ∀ c ∈ s, (c != d) = true :=
  fun _ hc => bne_iff_ne.2 (ne_of_isBlank (hg _ hc) hd)

theorem isGap_takeWhile (t : Text) : IsGap (t.takeWhile isBlank) :=
  fun _ hc => List.mem_takeWhile_imp hc

variable {p : Char → Bool}

theorem takeWhile_append_of_head? (hs : ∀ c ∈ s, p c = true)
    (ht : ∀ c, t.head? = some c → p c = false) : (s ++ t).takeWhile p = s := by
  rw [List.takeWhile_append_of_pos hs]
  cases t with
  | nil => simp
  | cons c rest => simp [ht c rfl]

theorem dropWhile_append_of_head? (hs : ∀ c ∈ s, p c = true)
    (ht : ∀ c, t.head? = some c → p c = false) : (s ++ t).dropWhile p = t := by
  rw [List.dropWhile_append_of_pos hs]
  cases t with
  | nil => rfl
  | cons c rest => simp [ht c rfl]

/-- A run that ends within a text is the same in front of more text. -/
theorem takeWhile_append_of_dropWhile_ne_nil (h : t.dropWhile p ≠ []) (s : Text) :
    (t ++ s).takeWhile p = t.takeWhile p := by
  rw [List.takeWhile_append, if_neg]
  intro hlength
  have hsum := congrArg List.length (List.takeWhile_append_dropWhile (l := t) (p := p))
  rw [List.length_append, hlength, Nat.add_eq_left, List.length_eq_zero_iff] at hsum
  exact h hsum

theorem dropWhile_append_of_dropWhile_ne_nil (h : t.dropWhile p ≠ []) (s : Text) :
    (t ++ s).dropWhile p = t.dropWhile p ++ s := by
  rw [List.dropWhile_append, if_neg (by simpa using h)]

theorem startsBlank_eq_head? (t : Text) : t.startsBlank = t.head?.any isBlank := by
  cases t with
  | nil => rfl
  | cons c rest => rfl

theorem IsGap.startsBlank_append (hg : IsGap g) (ht : t.startsBlank = false) :
    (g ++ t).startsBlank = !g.isEmpty := by
  cases g with
  | nil => exact ht
  | cons c rest => exact (isGap_cons.1 hg).1

theorem IsGap.eq_nil_of_startsBlank_append (hg : IsGap g) (h : (g ++ t).startsBlank = false) :
    g = [] := by
  cases g with
  | nil => rfl
  | cons c rest => exact absurd ((isGap_cons.1 hg).1.symm.trans h) Bool.noConfusion

theorem trimStart_of_startsBlank_eq_false (h : t.startsBlank = false) : t.trimStart = t := by
  cases t with
  | nil => rfl
  | cons c rest =>
      change isBlank c = false at h
      simp [trimStart, h]

theorem IsGap.trimStart_append (hg : IsGap g) (t : Text) :
    (g ++ t).trimStart = t.trimStart :=
  List.dropWhile_append_of_pos hg

theorem IsGap.trimStart (hg : IsGap g) : g.trimStart = [] := by
  simpa using hg.trimStart_append []

@[simp] theorem startsBlank_trimStart (t : Text) : t.trimStart.startsBlank = false := by
  induction t with
  | nil => rfl
  | cons c rest ih =>
      by_cases h : isBlank c = true
      · simpa [Text.trimStart, h] using ih
      · simp [Text.trimStart, h, startsBlank]

theorem trimStart_cons_of_isBlank (h : isBlank c = true) : trimStart (c :: t) = t.trimStart :=
  List.dropWhile_cons_of_pos h

/-- A text is the gap it starts with and the rest. -/
theorem exists_gap_append_trimStart (t : Text) : ∃ g, IsGap g ∧ t = g ++ t.trimStart :=
  ⟨t.takeWhile isBlank, isGap_takeWhile t, List.takeWhile_append_dropWhile.symm⟩

theorem trimEnd_eq_rdropWhile (t : Text) : t.trimEnd = t.rdropWhile isBlank := rfl

theorem mem_of_mem_trimEnd (h : c ∈ t.trimEnd) : c ∈ t :=
  List.mem_reverse.1 ((List.dropWhile_sublist _).subset (List.mem_reverse.1 h))

theorem IsGap.trimEnd_append (hg : IsGap g) (t : Text) : (t ++ g).trimEnd = t.trimEnd := by
  have hreverse : ∀ c ∈ g.reverse, isBlank c = true := fun c hc => hg c (List.mem_reverse.1 hc)
  rw [trimEnd, List.reverse_append, List.dropWhile_append_of_pos hreverse, trimEnd]

theorem IsGap.trimEnd (hg : IsGap g) : g.trimEnd = [] := by
  simpa using hg.trimEnd_append []

theorem trimEnd_eq_nil_iff : t.trimEnd = [] ↔ IsGap t := by
  rw [trimEnd_eq_rdropWhile, List.rdropWhile_eq_nil_iff]
  rfl

@[simp] theorem trimEnd_trimEnd (t : Text) : t.trimEnd.trimEnd = t.trimEnd := by
  simp only [trimEnd_eq_rdropWhile]
  exact List.rdropWhile_idempotent isBlank t

/-- A text is what trimming leaves and the gap it ends with. -/
theorem exists_trimEnd_append_gap (t : Text) : ∃ g, IsGap g ∧ t = t.trimEnd ++ g := by
  refine ⟨(t.reverse.takeWhile isBlank).reverse, ?_, ?_⟩
  · intro c hc
    exact isGap_takeWhile t.reverse c (List.mem_reverse.1 hc)
  · rw [trimEnd, ← List.reverse_append, List.takeWhile_append_dropWhile, List.reverse_reverse]

/-- A trim of an append stays in its second part, if that part is not all blank. -/
theorem trimEnd_append_of_not_isGap (s : Text) (ht : ¬ IsGap t) :
    (s ++ t).trimEnd = s ++ t.trimEnd := by
  have hne : (t.reverse.dropWhile isBlank).isEmpty = false := by
    rw [List.isEmpty_eq_false_iff]
    intro hnil
    exact ht (trimEnd_eq_nil_iff.1 (List.reverse_eq_nil_iff.2 hnil))
  rw [trimEnd, List.reverse_append, List.dropWhile_append, hne]
  simp [trimEnd]

/-- A trim of an append spares a first part that ends in no blank. -/
theorem trimEnd_append_of_trimEnd_eq (hs : s.trimEnd = s) (t : Text) :
    (s ++ t).trimEnd = s ++ t.trimEnd := by
  by_cases ht : IsGap t
  · rw [ht.trimEnd_append, hs, ht.trimEnd, List.append_nil]
  · exact trimEnd_append_of_not_isGap s ht

/-- A text keeps its end under trimming exactly if it ends in no blank. -/
theorem trimEnd_eq_self_iff : t.trimEnd = t ↔ ∀ c, t.getLast? = some c → isBlank c = false := by
  rw [trimEnd_eq_rdropWhile, List.rdropWhile_eq_self_iff]
  constructor
  · intro h c hc
    have hne : t ≠ [] := by
      rintro rfl
      simp at hc
    rw [List.getLast?_eq_some_getLast hne, Option.some.injEq] at hc
    exact hc ▸ Bool.eq_false_iff.2 (h hne)
  · intro h hne
    exact Bool.eq_false_iff.1 (h _ (List.getLast?_eq_some_getLast hne))

theorem trimEnd_cons_of_not_isBlank (hc : isBlank c = false) (t : Text) :
    trimEnd (c :: t) = c :: t.trimEnd := by
  have hs : trimEnd [c] = [c] := by
    rw [trimEnd_eq_self_iff]
    intro d hd
    obtain rfl := Option.some.inj hd
    exact hc
  exact trimEnd_append_of_trimEnd_eq hs t

theorem trimEnd_cons_of_not_isGap (h : ¬ IsGap (c :: t)) :
    trimEnd (c :: t) = c :: t.trimEnd := by
  by_cases ht : IsGap t
  · have hc : isBlank c = false := by
      by_contra hc
      exact h (isGap_cons.2 ⟨Bool.not_eq_false _ ▸ hc, ht⟩)
    exact trimEnd_cons_of_not_isBlank hc t
  · exact trimEnd_append_of_not_isGap [c] ht

end Text
end DdlDiagram
