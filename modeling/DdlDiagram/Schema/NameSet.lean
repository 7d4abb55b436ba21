import DdlDiagram.Text.Basic

/-!
# Sets of names

The columns of a key form a set that remembers the order in which its members first came.
Naming a member again changes nothing.
-/

namespace DdlDiagram

/-- Distinct names in the order of their first insertion. -/
structure NameSet where
  toList : List Text
  nodup : toList.Nodup
  deriving DecidableEq, Repr

namespace NameSet

def empty : NameSet := ⟨[], List.Pairwise.nil⟩

def contains (s : NameSet) (name : Text) : Bool := s.toList.contains name

/-- The set with a name behind those it has, or the set itself if the name is in it. -/
def insert (s : NameSet) (name : Text) : NameSet :=
  if h : name ∈ s.toList then s
  else ⟨s.toList ++ [name], by
    refine List.pairwise_append.2 ⟨s.nodup, List.pairwise_singleton _ _, ?_⟩
    intro a ha b hb heq
    exact h (List.mem_singleton.1 hb ▸ heq ▸ ha)⟩

def insertAll (s : NameSet) (names : List Text) : NameSet := names.foldl insert s

@[simp] theorem toList_empty : empty.toList = [] := rfl

theorem toList_insert (s : NameSet) (name : Text) :
    (s.insert name).toList = if name ∈ s.toList then s.toList else s.toList ++ [name] := by
  unfold insert
  split <;> simp_all

@[simp] theorem insertAll_nil (s : NameSet) : s.insertAll [] = s := rfl

@[simp] theorem insertAll_cons (s : NameSet) (name : Text) (names : List Text) :
    s.insertAll (name :: names) = (s.insert name).insertAll names := rfl

/-- Inserting two lists one after the other inserts the names of both. -/
theorem insertAll_append (s : NameSet) (names others : List Text) :
    s.insertAll (names ++ others) = (s.insertAll names).insertAll others := List.foldl_append

theorem mem_toList_insert {s : NameSet} {name other : Text} :
    other ∈ (s.insert name).toList ↔ other ∈ s.toList ∨ other = name := by
  rw [toList_insert]
  split <;> grind

end NameSet
end DdlDiagram
