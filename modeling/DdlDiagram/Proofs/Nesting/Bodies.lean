import DdlDiagram.Proofs.Nesting.Uncut

/-!
# Bodies of groups

A group stands at a byte offset of a text if a `(` is there, and behind it a balanced body and the
`)` that closes it. The scan of a group counts parentheses and follows quoted runs character by
character. It finds a body exactly where a group stands, and then the body of that group. Any
number may be given as an offset: where it is no place between two characters, no group stands.
-/

namespace DdlDiagram

namespace Nesting

variable {t body body' rest rest' : Text}

/-- Texts that close a group which is open in front of them, behind a balanced part. -/
def ClosesGroup (t : Text) : Prop := ∃ body rest, t = body ++ ')' :: rest ∧ Balanced body

/-- Texts in which the scan closes none of the groups that are open in front of them, however many
there are. -/
def KeepsOpen (t : Text) : Prop := ∀ d : Depth, upToClose ⟨none, d + 1⟩ t = none

/-- Behind the opening of a quoted run that is never closed no group is closed. -/
theorem upToClose_of_not_mem {q : Char} (hq : q ∉ t) (d : Depth) :
    upToClose ⟨some q, d⟩ t = none := by
  induction t with
  | nil => rfl
  | cons c rest ih =>
      rw [List.mem_cons, not_or] at hq
      have hquoted : ¬ (c = ')' ∧ atTop ⟨some q, d⟩ c = true) := fun h => nomatch h.2
      rw [upToClose, if_neg hquoted, after_in_run, if_neg (Ne.symm hq.1), ih hq.2]
      rfl

/-- A balanced text in front of another one makes no difference. -/
theorem Uncut.closesGroup_or_keepsOpen_append (h : Balanced t)
    (hrest : ClosesGroup rest ∨ KeepsOpen rest) :
    ClosesGroup (t ++ rest) ∨ KeepsOpen (t ++ rest) := by
  rcases hrest with ⟨body, behind, rfl, hbody⟩ | hopen
  · left
    exact ⟨t ++ body, behind, by rw [List.append_assoc], h.append hbody⟩
  · right
    intro d
    rw [h.upToClose_append, hopen d]
    rfl

/-- Every text closes the group that is open in front of it or keeps it open. -/
theorem closesGroup_or_keepsOpen (t : Text) : ClosesGroup t ∨ KeepsOpen t := by
  -- The induction is on the length: what the grammar puts in front is taken off as a whole.
  induction hn : t.length using Nat.strong_induction_on generalizing t with
  | _ n ih =>
      cases t with
      | nil => exact .inr fun _ => rfl
      | cons c rest =>
          rw [List.length_cons] at hn
          by_cases hclose : c = ')'
          · subst hclose
            exact .inl ⟨[], rest, rfl, .nil _⟩
          by_cases hopen : c = '('
          · subst hopen
            have hshorter : rest.length < n := by omega
            rcases ih rest.length hshorter rest rfl with ⟨inner, behind, rfl, hinner⟩ | hrest
            · have hgroup : Balanced ('(' :: (inner ++ [')'])) := .parenthesized hinner
              have hbehind : behind.length < n := by
                rw [List.length_append, List.length_cons] at hshorter
                omega
              have := hgroup.closesGroup_or_keepsOpen_append (ih behind.length hbehind behind rfl)
              simpa using this
            · right
              intro d
              rw [upToClose, if_neg (by simp), after_open_paren, hrest]
              rfl
          cases hquote : isQuote c with
          | true =>
              by_cases hmem : c ∈ rest
              · obtain ⟨inner, behind, rfl, hinner⟩ := List.eq_append_cons_of_mem hmem
                have hrun : Balanced (c :: (inner ++ [c])) := .run hquote hinner (.nil _)
                have hbehind : behind.length < n := by
                  rw [List.length_append, List.length_cons] at hn
                  omega
                have := hrun.closesGroup_or_keepsOpen_append (ih behind.length hbehind behind rfl)
                simpa using this
              · right
                intro d
                rw [upToClose, if_neg (by simp [hclose]), after_open_run hquote,
                  upToClose_of_not_mem hmem]
                rfl
          | false =>
              have hchar : Balanced [c] := .char hquote hopen hclose rfl (.nil _)
              have hshorter : rest.length < n := by omega
              exact hchar.closesGroup_or_keepsOpen_append (ih rest.length hshorter rest rfl)

end Nesting

namespace Text

open Nesting

variable {t u body : Text} {offset : Nat} {found other : Located}

/-- A text starts with a group exactly if it is a `(`, a balanced body, a `)` and some rest. -/
theorem groupBody?_eq_some_iff :
    groupBody? t = some body ↔ ∃ rest, t = '(' :: (body ++ ')' :: rest) ∧ Balanced body := by
  constructor
  · intro h
    cases t with
    | nil => exact nomatch h
    | cons c u =>
        rw [groupBody?, Option.ite_none_right_eq_some] at h
        obtain ⟨rfl, hscan⟩ := h
        rcases closesGroup_or_keepsOpen u with ⟨body', rest, rfl, hbody'⟩ | hopen
        · have hsame := hbody'.groupBody?_append rest
          rw [groupBody?_open, hscan, Option.some.injEq] at hsame
          subst hsame
          exact ⟨rest, rfl, hbody'⟩
        · rw [hopen 0] at hscan
          exact nomatch hscan
  · rintro ⟨rest, rfl, hbody⟩
    exact hbody.groupBody?_append rest

/-- A parenthesis takes a single byte. -/
theorem utf8Size_append_open (t u : Text) :
    (t ++ '(' :: u).utf8Size = t.utf8Size + 1 + u.utf8Size := by
  rw [utf8Size_append, utf8Size, Nat.add_assoc]
  rfl

theorem dropBytes?_utf8Size (before u : Text) :
    dropBytes? before.utf8Size (before ++ u) = some u := by
  induction before with
  | nil => cases u <;> rfl
  | cons c rest ih =>
      have hpos := c.utf8Size_pos
      rw [utf8Size]
      obtain ⟨n, hn⟩ : ∃ n, c.utf8Size + utf8Size rest = n + 1 :=
        Nat.exists_eq_succ_of_ne_zero (by omega)
      have hfits : c.utf8Size ≤ n + 1 := by omega
      have hleft : n + 1 - c.utf8Size = utf8Size rest := by omega
      rw [hn, List.cons_append, dropBytes?, if_pos hfits, hleft, ih]

/-- A text can be cut at an offset exactly if so many bytes are the size of a front part of it. -/
theorem dropBytes?_eq_some_iff :
    t.dropBytes? offset = some u ↔ ∃ before, t = before ++ u ∧ before.utf8Size = offset := by
  constructor
  · intro h
    induction t generalizing offset with
    | nil =>
        cases offset with
        | zero => exact ⟨[], Option.some.inj h, rfl⟩
        | succ n => exact nomatch h
    | cons c rest ih =>
        cases offset with
        | zero => exact ⟨[], Option.some.inj h, rfl⟩
        | succ n =>
            rw [dropBytes?, Option.ite_none_right_eq_some] at h
            obtain ⟨before, rfl, hsize⟩ := ih h.2
            refine ⟨c :: before, rfl, ?_⟩
            rw [utf8Size, hsize]
            omega
  · rintro ⟨before, rfl, rfl⟩
    exact dropBytes?_utf8Size before u

/-- What is located in a text is the body of the group whose `(` stands at a byte offset. Both of
its ends are places between characters: the text can be cut there. -/
def Located.IsBodyAt (found : Located) (t : Text) (offset : Nat) : Prop :=
  ∃ before rest, t = before ++ '(' :: (found.text ++ ')' :: rest) ∧ Balanced found.text ∧
    before.utf8Size = offset ∧ (before ++ ['(']).utf8Size = found.start ∧
    (before ++ '(' :: found.text).utf8Size = found.stop

theorem groupBodyAt?_of_isBodyAt (h : found.IsBodyAt t offset) :
    t.groupBodyAt? offset = some found := by
  obtain ⟨before, rest, rfl, hbody, rfl, hstart, hstop⟩ := h
  rw [utf8Size_append_open] at hstart hstop
  have hends : (⟨before.utf8Size + 1, before.utf8Size + 1 + found.text.utf8Size, found.text⟩ :
      Located) = found := by
    rw [hstop, show before.utf8Size + 1 = found.start from hstart]
  rw [groupBodyAt?, dropBytes?_utf8Size]
  simp [hbody.groupBody?_append, hends]

theorem isBodyAt_of_groupBodyAt? (h : t.groupBodyAt? offset = some found) :
    found.IsBodyAt t offset := by
  obtain ⟨group, hgroup, h⟩ := Option.bind_eq_some_iff.1 h
  obtain ⟨body, hbody, h⟩ := Option.bind_eq_some_iff.1 h
  obtain rfl := Option.some.inj h
  obtain ⟨before, rfl, rfl⟩ := dropBytes?_eq_some_iff.1 hgroup
  obtain ⟨rest, rfl, hbalanced⟩ := groupBody?_eq_some_iff.1 hbody
  exact ⟨before, rest, rfl, hbalanced, rfl, utf8Size_append_open before [],
    utf8Size_append_open before body⟩

/-- At an offset a body is found exactly if a group stands there. It is the body of that group, and
no other balanced text is. -/
theorem groupBodyAt?_iff_isBodyAt (t : Text) (offset : Nat) :
    (∀ found, t.groupBodyAt? offset = some found ↔ found.IsBodyAt t offset) ∧
      (t.groupBodyAt? offset = none ↔ ¬ ∃ found : Located, found.IsBodyAt t offset) ∧
      ∀ found other : Located, found.IsBodyAt t offset → other.IsBodyAt t offset →
        found = other := by
  have hiff : ∀ found, t.groupBodyAt? offset = some found ↔ found.IsBodyAt t offset :=
    fun found => ⟨isBodyAt_of_groupBodyAt?, groupBodyAt?_of_isBodyAt⟩
  refine ⟨hiff, ?_, ?_⟩
  · rw [Option.eq_none_iff_forall_ne_some, not_exists]
    exact forall_congr' fun found => not_congr (hiff found)
  · intro found other hfound hother
    have hsame := (hiff found).2 hfound
    rw [(hiff other).2 hother] at hsame
    exact (Option.some.inj hsame).symm

/-- A group behind a character of two bytes, with a parenthesis in quotes, a doubled quote and a
nested group in its body, and with parentheses in front of it and behind. -/
def nestedGroup : Text := "é)('(''', (b `)`))\")".toList

theorem groupBodyAt?_nestedGroup :
    Located.IsBodyAt ⟨4, 18, "'(''', (b `)`)".toList⟩ nestedGroup 3 ∧
      ∀ other : Located, other.IsBodyAt nestedGroup 3 →
        other = ⟨4, 18, "'(''', (b `)`)".toList⟩ := by
  obtain ⟨hiff, -, hunique⟩ := groupBodyAt?_iff_isBodyAt nestedGroup 3
  have hbody : Located.IsBodyAt ⟨4, 18, "'(''', (b `)`)".toList⟩ nestedGroup 3 :=
    (hiff _).1 (by decide +kernel)
  exact ⟨hbody, fun other hother => hunique other _ hother hbody⟩

/-- No group stands within a character or behind the end, nor where a quote hides the `)`. -/
example : nestedGroup.groupBodyAt? 1 = none ∧ nestedGroup.groupBodyAt? 30 = none ∧
    groupBodyAt? "(a \"b)".toList 0 = none := by decide +kernel

end Text
end DdlDiagram
