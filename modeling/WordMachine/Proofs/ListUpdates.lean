import Mathlib

/-!
What becomes of a list, and of what its items count for, when one of them is replaced or taken out.
-/

namespace WordMachine

variable {α β : Type} {items : List α} {position : Nat} {item changed other : α} {name : α → β}

/-! ## What items count for -/

theorem sum_map_modify (cost : α → Nat) (change : α → α) :
    ∀ {items : List α} {position : Nat} {item : α},
      items[position]? = some item →
      ((items.modify position change).map cost).sum + cost item =
        (items.map cost).sum + cost (change item)
  | [], _, _, found => by
    simp at found
  | head :: tail, 0, item, found => by
    simp only [List.getElem?_cons_zero, Option.some.injEq] at found
    subst found
    simp only [List.modify_zero_cons, List.map_cons, List.sum_cons]
    omega
  | head :: tail, position + 1, item, found => by
    simp only [List.getElem?_cons_succ] at found
    have inTail := sum_map_modify cost change found
    simp only [List.modify_succ_cons, List.map_cons, List.sum_cons]
    omega

theorem sum_map_set (cost : α → Nat) (found : items[position]? = some item) :
    ((items.set position changed).map cost).sum + cost item =
      (items.map cost).sum + cost changed := by
  rw [List.set_eq_modify]
  exact sum_map_modify cost (fun _ => changed) found

theorem sum_map_eraseIdx (cost : α → Nat) (found : items[position]? = some item) :
    ((items.eraseIdx position).map cost).sum + cost item = (items.map cost).sum := by
  induction items generalizing position with
  | nil => cases found
  | cons head tail ih =>
    cases position with
    | zero =>
      cases found
      exact Nat.add_comm _ _
    | succ position =>
      have rest := ih found
      simp only [List.eraseIdx_cons_succ, List.map_cons, List.sum_cons]
      omega

theorem exists_of_sum_map_ne_zero {cost : α → Nat} (counts : (items.map cost).sum ≠ 0) :
    ∃ item ∈ items, cost item ≠ 0 := by
  obtain ⟨part, listed, positive⟩ :=
    List.sum_pos_iff_exists_pos_nat.1 (Nat.pos_of_ne_zero counts)
  obtain ⟨item, member, rfl⟩ := List.mem_map.1 listed
  exact ⟨item, member, positive.ne'⟩

/-! ## Lists of different items -/

theorem map_set_of_eq (found : items[position]? = some item) (same : name changed = name item) :
    (items.set position changed).map name = items.map name := by
  obtain ⟨bound, rfl⟩ := List.getElem?_eq_some_iff.1 found
  rw [List.map_set, same, ← @List.getElem_map _ _ name items position (by simpa using bound)]
  exact List.set_getElem_self _

theorem mem_set_of_nodup (distinct : (items.map name).Nodup) (found : items[position]? = some item)
    (member : other ∈ items.set position changed) :
    other = changed ∨ other ∈ items ∧ name other ≠ name item := by
  obtain ⟨place, placed⟩ := List.mem_iff_getElem?.1 member
  rw [List.getElem?_set] at placed
  by_cases same : position = place
  · rw [if_pos same] at placed
    split at placed
    · exact Or.inl (Option.some.inj placed).symm
    · cases placed
  · rw [if_neg same] at placed
    refine Or.inr ⟨List.mem_of_getElem? placed, fun equal => same ?_⟩
    obtain ⟨bound, here⟩ := List.getElem?_eq_some_iff.1 found
    refine (List.getElem?_inj (by simpa using bound) distinct).1 ?_
    rw [List.getElem?_map, List.getElem?_map, found, placed, Option.map_some, Option.map_some,
      equal]

theorem mem_set_or (found : items[position]? = some item) (member : other ∈ items) :
    other = item ∨ other ∈ items.set position changed := by
  obtain ⟨place, placed⟩ := List.mem_iff_getElem?.1 member
  by_cases same : position = place
  · rw [← same, found] at placed
    exact Or.inl (Option.some.inj placed).symm
  · refine Or.inr (@List.mem_of_getElem? _ _ place _ ?_)
    rw [List.getElem?_set_ne same]
    exact placed

theorem mem_eraseIdx_or (found : items[position]? = some item) (member : other ∈ items) :
    other = item ∨ other ∈ items.eraseIdx position := by
  obtain ⟨place, placed⟩ := List.mem_iff_getElem?.1 member
  by_cases same : place = position
  · rw [same, found] at placed
    exact Or.inl (Option.some.inj placed).symm
  · exact Or.inr (List.mem_eraseIdx_iff_getElem?.2 ⟨place, same, placed⟩)

end WordMachine
