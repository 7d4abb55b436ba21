import DdlDiagram.Proofs.Layout.Fidelity

/-!
# Where a layout looks at blanks

The form of the blanks of a text never shows in its layout. That there are any shows only where
running text meets running text or an opening parenthesis: everywhere else a layout makes its gaps
from the tokens and the depth alone.
-/

namespace DdlDiagram

variable {s t : Text} {a b : Atom} {as bs : List Atom}

namespace Layout

/-- Whether a layout looks at the blanks in front of a token, which stands behind another one. -/
def looksAtBlanks (previous : Option Token) (token : Token) : Bool :=
  previous.any Token.isRunning && (token.isRunning || token == .openParen)

/-- The spacing of the atoms of a row where a layout looks at it. -/
def spacings (previous : Option Token) : List Atom → List Bool
  | [] => []
  | atom :: rest =>
    (if looksAtBlanks previous atom.token then [atom.spaced] else []) ++
      spacings (some atom.token) rest

/-- A gap depends on the spacing of its atom only where a layout looks at it. -/
theorem gapBehind_congr {previous : Option Token} (htoken : a.token = b.token)
    (hspaced : looksAtBlanks previous a.token = true → a.spaced = b.spaced) (indent depth : Nat) :
    gapBehind indent depth previous a = gapBehind indent depth previous b := by
  obtain ⟨token, spaced⟩ := a
  obtain ⟨token', spaced'⟩ := b
  obtain rfl : token = token' := htoken
  cases previous with
  | none => rfl
  | some previous =>
      cases hlooks : looksAtBlanks (some previous) token with
      | true =>
          obtain rfl : spaced = spaced' := hspaced hlooks
          rfl
      | false => cases previous <;> cases token <;> first | rfl | exact nomatch hlooks

/-- Two rows of the same tokens are written alike if their spacing agrees where a layout looks at
it. -/
theorem write_congr {previous : Option Token} (htokens : as.map (·.token) = bs.map (·.token))
    (hspacings : spacings previous as = spacings previous bs) (indent depth : Nat) :
    write indent depth previous as = write indent depth previous bs := by
  induction as generalizing bs previous depth with
  | nil =>
      obtain rfl : bs = [] := List.map_eq_nil_iff.1 htokens.symm
      rfl
  | cons a as ih =>
      cases bs with
      | nil => exact nomatch htokens
      | cons b bs =>
          rw [List.map_cons, List.map_cons, List.cons.injEq] at htokens
          obtain ⟨htoken, hothers⟩ := htokens
          have hboth : (looksAtBlanks previous a.token = true → a.spaced = b.spaced) ∧
              spacings (some a.token) as = spacings (some b.token) bs := by
            rw [spacings, spacings, ← htoken] at hspacings
            cases hlooks : looksAtBlanks previous a.token <;> simp_all
          obtain ⟨hspaced, hrest⟩ := hboth
          rw [← htoken] at hrest
          rw [write_cons, write_cons, gapBehind_congr htoken hspaced, ih hothers hrest, htoken]

end Layout

/-- Two texts of the same tokens are laid out alike if they agree on where there are blanks between
two pieces of running text, and between running text and an opening parenthesis. -/
theorem Text.format_congr (htokens : tokens s = tokens t)
    (hspacings : Layout.spacings none (atoms s) = Layout.spacings none (atoms t)) (indent : Nat) :
    s.format indent = t.format indent := by
  rw [format, format, Layout.write_congr htokens hspacings]

/-- A text with blanks of all kinds where they do not count, and one with as few as it can have. -/
def spread : Text × Text :=
  ("\r\n a  (\tb\u3000c(8)\n\n, -- d  \r\n 'e'/**/ \tf ) \n;g (( h".toList,
    "a (b c(8),-- d\n'e'/**/ f);g ((h".toList)

theorem Text.format_congr_spread : tokens spread.1 = tokens spread.2 ∧
    Layout.spacings none (atoms spread.1) = Layout.spacings none (atoms spread.2) ∧
      spread.1.format 4 = spread.2.format 4 := by
  have htokens : tokens spread.1 = tokens spread.2 := by decide +kernel
  have hspacings : Layout.spacings none (atoms spread.1) =
      Layout.spacings none (atoms spread.2) := by decide +kernel
  exact ⟨htokens, hspacings, Text.format_congr htokens hspacings 4⟩

end DdlDiagram
