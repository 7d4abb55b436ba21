import DdlDiagram.Schema.NameSet

/-!
# First occurrences

Inserting the names of a list one after the other leaves each name at the place of its first
occurrence.
-/

namespace DdlDiagram

theorem nodup_eraseDups (names : List Text) : names.eraseDups.Nodup := by
  induction hn : names.length using Nat.strongRecOn generalizing names with
  | ind n ih =>
      cases names with
      | nil => exact List.nodup_nil
      | cons name rest =>
          have hlen : (rest.filter fun other => !other == name).length < n := by
            have := List.length_filter_le (fun other => !other == name) rest
            rw [List.length_cons] at hn
            omega
          rw [List.eraseDups_cons, List.nodup_cons]
          refine ⟨fun hmem => ?_, ih _ hlen _ rfl⟩
          simp [List.mem_eraseDups] at hmem

namespace NameSet

/-- The names of a list, each at its first occurrence. -/
def ofList (names : List Text) : NameSet := ⟨names.eraseDups, nodup_eraseDups names⟩

theorem toList_insertAll (s : NameSet) (names : List Text) :
    (s.insertAll names).toList = s.toList ++ (names.filter (!s.contains ·)).eraseDups := by
  induction names generalizing s with
  | nil => simp
  | cons name rest ih =>
      rw [insertAll_cons, ih, toList_insert]
      by_cases hmem : name ∈ s.toList
      · have hsame : s.insert name = s := by rw [insert, dif_pos hmem]
        have hcontains : s.contains name = true := by simpa [contains] using hmem
        rw [if_pos hmem, hsame, List.filter_cons_of_neg (by simp [hcontains])]
      · have hcontains : s.contains name = false := by simpa [contains] using hmem
        have hfilter : rest.filter (!(s.insert name).contains ·) =
            (rest.filter (!s.contains ·)).filter fun other => !other == name := by
          rw [List.filter_filter]
          refine List.filter_congr fun other _ => ?_
          by_cases heq : other = name
          · simp [contains, toList_insert, hmem, heq]
          · simp [contains, toList_insert, hmem, heq, beq_eq_false_iff_ne.2 heq]
        rw [if_neg hmem, hfilter, List.filter_cons_of_pos (by simp [hcontains]),
          List.eraseDups_cons, List.append_assoc]
        rfl

/-- Inserting names into the empty set leaves their first occurrences. -/
theorem insertAll_empty (names : List Text) : empty.insertAll names = ofList names := by
  have hlist : (empty.insertAll names).toList = names.eraseDups := by
    rw [toList_insertAll, toList_empty, List.nil_append, List.filter_eq_self.2]
    intro name _
    rfl
  cases hset : empty.insertAll names with
  | mk list nodup =>
      rw [hset] at hlist
      simp only [ofList, ← hlist]

end NameSet
end DdlDiagram
