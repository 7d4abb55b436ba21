import DdlDiagram.Text.Blank

/-!
# Texts

A text is a list of characters, so that a scan is a recursion on the text and a cut is an
append. The operations here are the ones that need no knowledge of what the text says: blanks
at the ends, lines, fields between blanks, comparison up to the case of ASCII letters, and
sizes in UTF-8.
-/

namespace DdlDiagram

/-- A text, character by character. -/
abbrev Text := List Char

/-- The comparison of texts, under one name in all tests for membership in a list of them. -/
instance : LawfulBEq Text := inferInstanceAs (LawfulBEq (List Char))

namespace Text

def trimStart (t : Text) : Text := t.dropWhile isBlank

def trimEnd (t : Text) : Text := (t.reverse.dropWhile isBlank).reverse

def trim (t : Text) : Text := t.trimStart.trimEnd

def startsBlank : Text → Bool
  | [] => false
  | c :: _ => isBlank c

/-- Equality up to the case of ASCII letters. -/
def eqIgnoreCase (s t : Text) : Bool := s.map Char.toLower == t.map Char.toLower

/-- The parts before and after the first occurrence of a character. -/
def splitOnce (sep : Char) : Text → Option (Text × Text)
  | [] => none
  | c :: rest =>
    if c = sep then some ([], rest)
    else (splitOnce sep rest).map fun (before, after) => (c :: before, after)

/-- Put a character in front of the first of several texts; of none, it makes one. -/
def consHead (c : Char) : List Text → List Text
  | [] => [[c]]
  | t :: others => (c :: t) :: others

/-- The lines of a text. Each line keeps the line feed that ends it; a text that ends in a line
feed has no further empty line. -/
def lines : Text → List Text
  | [] => []
  | c :: rest => if c = '\n' then [c] :: lines rest else consHead c (lines rest)

/-- The parts of a text between the characters that satisfy `cut`, always at least one. -/
def splitAll (cut : Char → Bool) : Text → List Text
  | [] => [[]]
  | c :: rest => if cut c then [] :: splitAll cut rest else consHead c (splitAll cut rest)

/-- The maximal runs of characters that are not blank. -/
def fields (t : Text) : List Text := (splitAll isBlank t).filter (!·.isEmpty)

/-- The texts one after the other with `sep` between neighbours. -/
def join (sep : Text) : List Text → Text
  | [] => []
  | [t] => t
  | t :: rest => t ++ sep ++ join sep rest

def replaceChar (t : Text) (c : Char) (replacement : Text) : Text :=
  t.flatMap fun d => if d = c then replacement else [d]

def utf8Size : Text → Nat
  | [] => 0
  | c :: rest => c.utf8Size + utf8Size rest

/-- The text from a byte offset on, if the offset is a boundary between characters. -/
def dropBytes? : Nat → Text → Option Text
  | 0, t => some t
  | _ + 1, [] => none
  | n + 1, c :: rest =>
    if c.utf8Size ≤ n + 1 then dropBytes? (n + 1 - c.utf8Size) rest else none

@[simp] theorem trimStart_nil : trimStart [] = [] := rfl

@[simp] theorem trimEnd_nil : trimEnd [] = [] := rfl

@[simp] theorem trim_nil : trim [] = [] := rfl

theorem utf8Size_append (t u : Text) : (t ++ u).utf8Size = t.utf8Size + u.utf8Size := by
  induction t with
  | nil => simp [utf8Size]
  | cons c rest ih => rw [List.cons_append, utf8Size, utf8Size, ih, Nat.add_assoc]

theorem length_trimStart_le (t : Text) : t.trimStart.length ≤ t.length :=
  (List.dropWhile_suffix isBlank).length_le

/-- Dropping leading blanks changes a text exactly if it starts with one. -/
theorem length_trimStart_lt_iff (t : Text) :
    t.trimStart.length < t.length ↔ t.startsBlank = true := by
  cases t with
  | nil => simp [trimStart, startsBlank]
  | cons c rest =>
    cases h : isBlank c with
    | true =>
        have := length_trimStart_le rest
        rw [trimStart, List.dropWhile_cons_of_pos h, ← trimStart]
        simp only [List.length_cons, startsBlank, h, iff_true]
        omega
    | false =>
        rw [trimStart, List.dropWhile_cons_of_neg (by simp [h])]
        simp [startsBlank, h]

@[simp] theorem flatten_consHead (c : Char) (ts : List Text) :
    (consHead c ts).flatten = c :: ts.flatten := by
  cases ts <;> rfl

/-- Only the first text takes the character. -/
theorem consHead_append {ts : List Text} (h : ts ≠ []) (c : Char) (others : List Text) :
    consHead c (ts ++ others) = consHead c ts ++ others := by
  cases ts with
  | nil => exact absurd rfl h
  | cons t rest => rfl

@[simp] theorem consHead_ne_nil (c : Char) (ts : List Text) : consHead c ts ≠ [] := by
  cases ts <;> simp [consHead]

theorem join_cons_of_ne_nil {others : List Text} (h : others ≠ []) (sep t : Text) :
    join sep (t :: others) = t ++ sep ++ join sep others := by
  cases others with
  | nil => exact absurd rfl h
  | cons u rest => rfl

/-- The first of several texts is what their join starts with. -/
theorem join_consHead {ts : List Text} (h : ts ≠ []) (sep : Text) (c : Char) :
    join sep (consHead c ts) = c :: join sep ts := by
  cases ts with
  | nil => exact absurd rfl h
  | cons t others => cases others <;> rfl

/-- The lines of a text, one after the other, are the text. -/
@[simp] theorem flatten_lines (t : Text) : (lines t).flatten = t := by
  induction t with
  | nil => rfl
  | cons c rest ih => by_cases h : c = '\n' <;> simp [lines, h, ih]

/-- The parts of a split, with the separator between them, are the text. -/
theorem splitOnce_eq_append {sep : Char} {t before after : Text}
    (h : splitOnce sep t = some (before, after)) : t = before ++ sep :: after := by
  induction t generalizing before with
  | nil => simp [splitOnce] at h
  | cons c rest ih =>
    rw [splitOnce] at h
    split at h
    · simp_all
    · obtain ⟨⟨b, a⟩, hrest, heq⟩ := Option.map_eq_some_iff.1 h
      simp only [Prod.mk.injEq] at heq
      obtain ⟨rfl, rfl⟩ := heq
      simp [ih hrest]

end Text
end DdlDiagram
