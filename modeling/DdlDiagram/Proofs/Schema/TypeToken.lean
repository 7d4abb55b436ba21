import DdlDiagram.Proofs.Text.IdentifierChar
import DdlDiagram.Schema.TypeToken

/-!
# What a type token shows

A type token shows the letters and digits of a type in their order. It has an underscore between
two of them exactly if something separates them in the type, and in front of the first exactly if
something stands in front of it there. All that it shows of other characters is that there are
some, so blanks next to one of them make no difference.
-/

namespace DdlDiagram

variable {separated : Bool} {s t u u' g g' : Text} {c : Char}

theorem ne_underscore_of_isAlphanum (hc : c.isAlphanum = true) : c ≠ '_' := by
  rintro rfl
  exact absurd hc (by decide)

theorem Text.IsGap.isAlphanum_eq_false (hg : IsGap g) : ∀ c ∈ g, c.isAlphanum = false := by
  intro c hc
  by_contra h
  have hblank := isBlank_eq_false_of_isAlphanum (Bool.not_eq_false _ ▸ h)
  exact absurd (hblank.symm.trans (hg c hc)) Bool.false_ne_true

theorem typeTokenFrom_cons_of_isAlphanum (hc : c.isAlphanum = true) (t : Text) :
    typeTokenFrom separated (c :: t) =
      (if separated then ['_'] else []) ++ c :: typeTokenFrom false t := by
  rw [typeTokenFrom, if_pos hc]
  cases separated <;> rfl

theorem typeTokenFrom_cons_of_not_isAlphanum (hc : c.isAlphanum = false) (t : Text) :
    typeTokenFrom separated (c :: t) = typeTokenFrom true t := by
  rw [typeTokenFrom, hc, if_neg Bool.false_ne_true]

/-- Of a text without letters and digits a token shows only whether it is empty. -/
theorem typeTokenFrom_append_of_forall (hg : ∀ c ∈ g, c.isAlphanum = false) (separated : Bool)
    (t : Text) : typeTokenFrom separated (g ++ t) = typeTokenFrom (separated || !g.isEmpty) t := by
  induction g generalizing separated with
  | nil => simp
  | cons c rest ih =>
      obtain ⟨hc, hrest⟩ := List.forall_mem_cons.1 hg
      rw [List.cons_append, typeTokenFrom_cons_of_not_isAlphanum hc, ih hrest]
      simp

theorem typeTokenFrom_gap_append (hg : Text.IsGap g) (separated : Bool) (t : Text) :
    typeTokenFrom separated (g ++ t) = typeTokenFrom (separated || !g.isEmpty) t :=
  typeTokenFrom_append_of_forall hg.isAlphanum_eq_false separated t

/-- Behind a letter or digit a token goes on as from its start. -/
theorem typeTokenFrom_append_cons (hc : c.isAlphanum = true) (separated : Bool) (s t : Text) :
    typeTokenFrom separated (s ++ c :: t) =
      typeTokenFrom separated (s ++ [c]) ++ typeTokenFrom false t := by
  induction s generalizing separated with
  | nil =>
      rw [List.nil_append, List.nil_append, typeTokenFrom_cons_of_isAlphanum hc,
        typeTokenFrom_cons_of_isAlphanum hc, List.append_assoc]
      rfl
  | cons d rest ih =>
      rw [List.cons_append, List.cons_append]
      cases hd : d.isAlphanum with
      | false =>
          rw [typeTokenFrom_cons_of_not_isAlphanum hd, typeTokenFrom_cons_of_not_isAlphanum hd, ih]
      | true =>
          rw [typeTokenFrom_cons_of_isAlphanum hd, typeTokenFrom_cons_of_isAlphanum hd, ih,
            List.append_assoc, List.cons_append]

/-- Texts with the same tokens have the same tokens behind any other text. -/
theorem typeTokenFrom_append_congr
    (h : ∀ separated, typeTokenFrom separated u' = typeTokenFrom separated u)
    (separated : Bool) (s : Text) :
    typeTokenFrom separated (s ++ u') = typeTokenFrom separated (s ++ u) := by
  induction s generalizing separated with
  | nil => exact h separated
  | cons c rest ih => rw [List.cons_append, List.cons_append, typeTokenFrom, typeTokenFrom, ih, ih]

/-- Blanks next to a character that separates make no difference. -/
theorem typeTokenFrom_separator_gap (hc : c.isAlphanum = false) (hg : Text.IsGap g)
    (hg' : Text.IsGap g') (separated : Bool) (t : Text) :
    typeTokenFrom separated (g ++ c :: (g' ++ t)) = typeTokenFrom separated (c :: t) := by
  rw [typeTokenFrom_gap_append hg, typeTokenFrom_cons_of_not_isAlphanum hc,
    typeTokenFrom_gap_append hg', Bool.true_or, typeTokenFrom_cons_of_not_isAlphanum hc]

theorem isAlphanum_or_eq_of_mem_typeTokenFrom :
    ∀ c ∈ typeTokenFrom separated t, c.isAlphanum = true ∨ c = '_' := by
  fun_induction typeTokenFrom separated t with
  | case1 => exact nofun
  | case2 c rest hc ih => simpa [hc] using ih
  | case3 separated c rest hc _ ih => simpa [hc] using ih
  | case4 separated c rest _ ih => exact ih

/-- A token ends in a letter or digit. -/
theorem isAlphanum_getLast?_typeTokenFrom (separated : Bool) (t : Text) :
    (typeTokenFrom separated t).getLast?.all Char.isAlphanum = true := by
  have hcons : ∀ {c : Char} {token : Text}, c.isAlphanum = true →
      token.getLast?.all Char.isAlphanum = true →
      (c :: token).getLast?.all Char.isAlphanum = true := by
    intro c token hc htoken
    cases token with
    | nil => simpa using hc
    | cons d rest => rwa [List.getLast?_cons_cons]
  fun_induction typeTokenFrom separated t with
  | case1 => rfl
  | case2 c rest hc ih =>
      rw [List.getLast?_cons_cons]
      exact hcons hc ih
  | case3 separated c rest hc _ ih => exact hcons hc ih
  | case4 separated c rest _ ih => exact ih

/-- An underscore in a token stands in front of a letter or digit. -/
theorem not_infix_typeTokenFrom : ¬ "__".toList <:+: typeTokenFrom separated t := by
  have hcons : ∀ {c : Char} {token : Text}, c.isAlphanum = true →
      ¬ "__".toList <:+: token → ¬ "__".toList <:+: c :: token := by
    intro c token hc htoken
    rw [List.infix_cons_iff, not_or]
    refine ⟨fun h => ?_, htoken⟩
    exact ne_underscore_of_isAlphanum hc (List.cons_prefix_cons.1 h).1.symm
  fun_induction typeTokenFrom separated t with
  | case1 => simp
  | case2 c rest hc ih =>
      rw [List.infix_cons_iff, not_or]
      refine ⟨fun h => ?_, hcons hc ih⟩
      obtain ⟨-, hnext⟩ := List.cons_prefix_cons.1 h
      exact ne_underscore_of_isAlphanum hc (List.cons_prefix_cons.1 hnext).1.symm
  | case3 separated c rest hc _ ih => exact hcons hc ih
  | case4 separated c rest _ ih => exact ih

theorem filter_isAlphanum_typeTokenFrom (separated : Bool) (t : Text) :
    (typeTokenFrom separated t).filter Char.isAlphanum = t.filter Char.isAlphanum := by
  have hmark : Char.isAlphanum '_' = false := by decide
  fun_induction typeTokenFrom separated t with
  | case1 => rfl
  | case2 c rest hc ih => simp [hc, hmark, ih]
  | case3 separated c rest hc _ ih => simp [hc, ih]
  | case4 separated c rest hc ih => simp [hc, ih]

theorem head?_typeTokenFrom_true :
    (typeTokenFrom true t).head? = some '_' ↔ ∃ c ∈ t, c.isAlphanum = true := by
  induction t with
  | nil => simp [typeTokenFrom]
  | cons c rest ih =>
      cases hc : c.isAlphanum with
      | false =>
          rw [typeTokenFrom_cons_of_not_isAlphanum hc, ih]
          simp [hc]
      | true =>
          rw [typeTokenFrom_cons_of_isAlphanum hc]
          simp [hc]

theorem head?_typeToken : (typeToken t).head? = some '_' ↔
    (∃ c ∈ t, c.isAlphanum = true) ∧ ∀ c, t.head? = some c → c.isAlphanum = false := by
  cases t with
  | nil => simp
  | cons c rest =>
      rw [typeToken]
      cases hc : c.isAlphanum with
      | false =>
          rw [typeTokenFrom_cons_of_not_isAlphanum hc, head?_typeTokenFrom_true]
          simp [hc]
      | true =>
          rw [typeTokenFrom_cons_of_isAlphanum hc]
          simp [hc, ne_underscore_of_isAlphanum hc]

/-- Up to a letter or digit a token shows the letters and digits so far, and this one last. -/
theorem exists_typeTokenFrom_concat (hc : c.isAlphanum = true) (separated : Bool) (s : Text) :
    ∃ front, typeTokenFrom separated (s ++ [c]) = front ++ [c] ∧
      front.filter Char.isAlphanum = s.filter Char.isAlphanum := by
  have hletters := filter_isAlphanum_typeTokenFrom separated (s ++ [c])
  have hlast := isAlphanum_getLast?_typeTokenFrom separated (s ++ [c])
  rw [List.filter_append, List.filter_cons_of_pos hc, List.filter_nil] at hletters
  -- The last character of the token is a letter or digit, and `c` is the last of these.
  cases htoken : (typeTokenFrom separated (s ++ [c])).getLast? with
  | none =>
      rw [List.getLast?_eq_none_iff.1 htoken] at hletters
      exact absurd hletters (by simp)
  | some last =>
      obtain ⟨front, heq⟩ := List.getLast?_eq_some_iff.1 htoken
      rw [htoken, Option.all_some] at hlast
      rw [heq, List.filter_append, List.filter_cons_of_pos hlast, List.filter_nil] at hletters
      obtain ⟨hfront, hsame⟩ := List.append_inj' hletters rfl
      exact ⟨front, by rw [heq, hsame], hfront⟩

/-- A text is the token of a type if it is a word of ASCII letters, digits and single underscores
that shows the letters and digits of the type and where something separates them. -/
structure IsTypeToken (token type : Text) : Prop where
  isAlphanum_or_eq : ∀ c ∈ token, c.isAlphanum = true ∨ c = '_'
  not_infix : ¬ "__".toList <:+: token
  getLast?_ne : token.getLast? ≠ some '_'
  /-- The letters and digits are those of the type in their order. -/
  letters : token.filter Char.isAlphanum = type.filter Char.isAlphanum
  /-- Between two of them that follow each other in the type there is an underscore if something
  separates them there, and nothing if not. -/
  between (s g t : Text) (a b : Char) : type = s ++ a :: (g ++ b :: t) →
    a.isAlphanum = true → b.isAlphanum = true → (∀ c ∈ g, c.isAlphanum = false) →
    ∃ front behind, token = front ++ a :: ((if g = [] then [] else ['_']) ++ b :: behind) ∧
      front.filter Char.isAlphanum = s.filter Char.isAlphanum ∧
      behind.filter Char.isAlphanum = t.filter Char.isAlphanum
  /-- An underscore stands in front of the first of them if something does so in the type. -/
  head?_eq : token.head? = some '_' ↔
    (∃ c ∈ type, c.isAlphanum = true) ∧ ∀ c, type.head? = some c → c.isAlphanum = false

theorem isTypeToken_typeToken (type : Text) : IsTypeToken (typeToken type) type where
  isAlphanum_or_eq := isAlphanum_or_eq_of_mem_typeTokenFrom
  not_infix := not_infix_typeTokenFrom
  getLast?_ne h := by
    have hlast := isAlphanum_getLast?_typeTokenFrom false type
    rw [← typeToken, h] at hlast
    exact ne_underscore_of_isAlphanum hlast rfl
  letters := filter_isAlphanum_typeTokenFrom false type
  between := by
    rintro s g t a b rfl ha hb hg
    obtain ⟨front, hfront, hletters⟩ := exists_typeTokenFrom_concat ha false s
    refine ⟨front, typeTokenFrom false t, ?_, hletters, filter_isAlphanum_typeTokenFrom false t⟩
    rw [typeToken, typeTokenFrom_append_cons ha, hfront, typeTokenFrom_append_of_forall hg,
      typeTokenFrom_cons_of_isAlphanum hb, List.append_assoc]
    cases g <;> rfl
  head?_eq := head?_typeToken

theorem typeTokenFrom_typeTokenFrom (separated : Bool) (t : Text) :
    typeTokenFrom false (typeTokenFrom separated t) = typeTokenFrom separated t := by
  have hmark : Char.isAlphanum '_' = false := by decide
  fun_induction typeTokenFrom separated t with
  | case1 => rfl
  | case2 c rest hc ih => simp [typeTokenFrom, hc, hmark, ih]
  | case3 separated c rest hc _ ih => simp [typeTokenFrom, hc, ih]
  | case4 separated c rest _ ih => exact ih

/-- A token is its own token. -/
@[simp] theorem typeToken_typeToken (t : Text) : typeToken (typeToken t) = typeToken t :=
  typeTokenFrom_typeTokenFrom false t

/-- Every type has a token, which is its own token and stays the same if blanks next to a character
of the type that is neither a letter nor a digit come or go. -/
theorem isTypeToken_stable (type : Text) :
    IsTypeToken (typeToken type) type ∧ typeToken (typeToken type) = typeToken type ∧
      ∀ (s t g g' : Text) (c : Char), c.isAlphanum = false → Text.IsGap g → Text.IsGap g' →
        typeToken (s ++ (g ++ c :: (g' ++ t))) = typeToken (s ++ c :: t) := by
  refine ⟨isTypeToken_typeToken type, typeToken_typeToken type, ?_⟩
  intro s t g g' c hc hg hg'
  exact typeTokenFrom_append_congr (fun _ => typeTokenFrom_separator_gap hc hg hg' _ t) false s

/-- A type in parentheses with marks of all kinds between its letters and digits. -/
def markedType : Text := "(ENUM__'é' , 9a)".toList

theorem isTypeToken_stable_markedType : IsTypeToken "_ENUM_9a".toList markedType ∧
    Char.isAlphanum ',' = false ∧ Text.IsGap ['\u3000', '\n'] ∧ Text.IsGap [] ∧
      typeToken ("(ENUM__'é' ".toList ++ (['\u3000', '\n'] ++ ',' :: ([] ++ " 9a)".toList))) =
        "_ENUM_9a".toList := by
  obtain ⟨htoken, -, hblanks⟩ := isTypeToken_stable markedType
  have hcomma : Char.isAlphanum ',' = false := by decide
  have hgap : Text.IsGap ['\u3000', '\n'] := Text.isGap_cons.2 ⟨by decide, Text.isGap_feed⟩
  exact ⟨htoken, hcomma, hgap, Text.isGap_nil,
    hblanks "(ENUM__'é' ".toList " 9a)".toList _ [] ',' hcomma hgap Text.isGap_nil⟩

end DdlDiagram
