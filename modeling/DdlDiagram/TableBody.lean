import DdlDiagram.Keyword

/-!
# Table bodies

A chunk, the text behind `CREATE TABLE`, is read as the name of the table and the declarations
in its body. The name may be qualified and quoted; its last segment is the name of the table.
The body is the first group behind the name, and the commas at its top level separate the
declarations. What follows the body is not looked at.
-/

namespace DdlDiagram

/-- The name of a table and the declarations of its body. -/
structure TableBody where
  name : Text
  declarations : List Text
  deriving DecidableEq, Repr

namespace TableBody

/-- Why a chunk is not a table. -/
inductive Fault where
  | noName
  | noBody
  | unclosedBody
  deriving DecidableEq, Repr

def Fault.message : Fault → Text
  | noName => "missing table name".toList
  | noBody => "missing parenthesized table body".toList
  | unclosedBody => "unbalanced parentheses in table body".toList

/-- The text behind a keyword and the blanks that follow it. -/
def skip? (keyword : Keyword) (t : Text) : Option Text := (keyword.strip? t).map Text.trimStart

/-- The text behind the words `IF NOT EXISTS`, or the whole text if it does not start with all
three. -/
def behindIfNotExists (t : Text) : Text :=
  (do skip? .existsWord (← skip? .notWord (← skip? .ifWord t))).getD t

/-- The segment of a name that a text starts with, without its quotes, and the rest. Within
quotes every character may stand but the closing one; a bare segment takes all identifier
characters there are. -/
def rawSegment? : Text → Option (Text × Text)
  | [] => none
  | c :: rest =>
    match closingQuote? c with
    | some close => Text.splitOnce close rest
    | none => some ((c :: rest).takeWhile isIdentifierChar, (c :: rest).dropWhile isIdentifierChar)

/-- A segment of a name, which is not empty. -/
def segment? (t : Text) : Option (Text × Text) := (rawSegment? t).filter (!·.1.isEmpty)

/-- A segment takes at least one character. -/
theorem length_lt_of_segment? {t name rest : Text} (h : segment? t = some (name, rest)) :
    rest.length < t.length := by
  obtain ⟨hraw, hname⟩ := Option.filter_eq_some_iff.1 h
  cases t with
  | nil => simp [rawSegment?] at hraw
  | cons c t =>
    rw [rawSegment?] at hraw
    split at hraw
    · have := Text.splitOnce_eq_append hraw
      simp [this]
      omega
    · simp only [Option.some.injEq, Prod.mk.injEq] at hraw
      obtain ⟨rfl, rfl⟩ := hraw
      have hlen := congrArg List.length
        (List.takeWhile_append_dropWhile (l := c :: t) (p := isIdentifierChar))
      rw [List.length_append] at hlen
      have : 0 < ((c :: t).takeWhile isIdentifierChar).length := by
        simpa [List.length_pos_iff] using hname
      omega

/-- The last segment of the name that a text starts with, and the rest. Segments are joined by
points, with blanks around them or not. -/
def name? (t : Text) : Option (Text × Text) :=
  match _h : segment? t with
  | none => none
  | some (name, rest) =>
    match _hrest : rest.trimStart with
    | '.' :: next => name? (Text.trimStart next)
    | _ => some (name, rest)
termination_by t.length
decreasing_by
  have hsegment := length_lt_of_segment? _h
  have htrim := Text.length_trimStart_le rest
  have hnext := Text.length_trimStart_le next
  simp only [_hrest, List.length_cons] at htrim
  omega

def declarationsOf (body : Text) : List Text :=
  ((body.partsBetween ',').map Text.trim).filter (!·.isEmpty)

/-- The table that a chunk declares. Of several faults the first one counts, in the order in
which the chunk is read. -/
def ofChunk (chunk : Text) : Except Fault TableBody :=
  match name? (behindIfNotExists chunk.trimStart) with
  | none => .error .noName
  | some (name, rest) =>
    match rest.dropWhile (· != '(') with
    | [] => .error .noBody
    | group =>
      match Text.groupBody? group with
      | none => .error .unclosedBody
      | some body => .ok { name, declarations := declarationsOf body }

end TableBody
end DdlDiagram
