-- SUMMARY: Removing repetitions from a list, by key, so that the first of each key stays.

/-! # Distinct

`distinctBy key xs` keeps the first element of each key and drops the later ones, in order. It is how
the library turns "in order of first occurrence" into a list. -/

namespace ImportAtlas

section
variable {α β : Type} [DecidableEq β]

/-- The elements of a list whose key is neither in `seen` nor carried by an earlier element. -/
def distinctFrom (key : α → β) (seen : List β) : List α → List α
  | [] => []
  | a :: as =>
    if key a ∈ seen then distinctFrom key seen as
    else a :: distinctFrom key (key a :: seen) as

/-- The first element of each key, in order. -/
def distinctBy (key : α → β) (xs : List α) : List α := distinctFrom key [] xs

theorem mem_of_mem_distinctFrom {key : α → β} {seen : List β} {xs : List α} {a : α}
    (h : a ∈ distinctFrom key seen xs) : a ∈ xs ∧ key a ∉ seen := by
  induction xs generalizing seen with
  | nil => simp [distinctFrom] at h
  | cons x xs ih =>
    by_cases hx : key x ∈ seen
    · simp only [distinctFrom, hx, if_true] at h
      exact ⟨List.mem_cons_of_mem _ (ih h).1, (ih h).2⟩
    · simp only [distinctFrom, hx, if_false, List.mem_cons] at h
      rcases h with rfl | h
      · exact ⟨List.mem_cons_self, hx⟩
      · have ⟨hm, hk⟩ := ih h
        exact ⟨List.mem_cons_of_mem _ hm, fun hs => hk (List.mem_cons_of_mem _ hs)⟩

theorem mem_of_mem_distinctBy {key : α → β} {xs : List α} {a : α}
    (h : a ∈ distinctBy key xs) : a ∈ xs := (mem_of_mem_distinctFrom h).1

theorem nodup_map_distinctFrom (key : α → β) (seen : List β) (xs : List α) :
    ((distinctFrom key seen xs).map key).Nodup := by
  induction xs generalizing seen with
  | nil => simp [distinctFrom]
  | cons x xs ih =>
    by_cases hx : key x ∈ seen
    · simpa [distinctFrom, hx] using ih seen
    · simp only [distinctFrom, hx, if_false, List.map_cons, List.nodup_cons]
      refine ⟨fun h => ?_, ih _⟩
      obtain ⟨a, ha, hk⟩ := List.mem_map.1 h
      exact (mem_of_mem_distinctFrom ha).2 (by simp [hk])

/-- No two elements that stay have one key. -/
theorem nodup_map_distinctBy (key : α → β) (xs : List α) : ((distinctBy key xs).map key).Nodup :=
  nodup_map_distinctFrom key [] xs

theorem exists_key_mem_distinctFrom {key : α → β} {seen : List β} {xs : List α} {a : α}
    (ha : a ∈ xs) (hs : key a ∉ seen) : ∃ b ∈ distinctFrom key seen xs, key b = key a := by
  induction xs generalizing seen with
  | nil => simp at ha
  | cons x xs ih =>
    by_cases hx : key x ∈ seen
    · simp only [distinctFrom, hx, if_true]
      rcases List.mem_cons.1 ha with rfl | ha
      · exact absurd hx hs
      · exact ih ha hs
    · simp only [distinctFrom, hx, if_false]
      by_cases hk : key a = key x
      · exact ⟨x, List.mem_cons_self, hk.symm⟩
      · rcases List.mem_cons.1 ha with rfl | ha
        · exact absurd rfl hk
        · obtain ⟨b, hb, hbk⟩ := @ih (key x :: seen) ha (by simp [hk, hs])
          exact ⟨b, List.mem_cons_of_mem _ hb, hbk⟩

/-- Every key that occurs still occurs. -/
theorem exists_key_mem_distinctBy {key : α → β} {xs : List α} {a : α} (ha : a ∈ xs) :
    ∃ b ∈ distinctBy key xs, key b = key a :=
  exists_key_mem_distinctFrom ha (by simp)

/-- The keys that stay are the keys that occur. -/
theorem mem_map_distinctBy {key : α → β} {xs : List α} {b : β} :
    b ∈ (distinctBy key xs).map key ↔ b ∈ xs.map key := by
  constructor
  · intro h
    obtain ⟨a, ha, rfl⟩ := List.mem_map.1 h
    exact List.mem_map_of_mem (mem_of_mem_distinctBy ha)
  · intro h
    obtain ⟨a, ha, rfl⟩ := List.mem_map.1 h
    exact List.mem_map.2 (exists_key_mem_distinctBy ha)

end

end ImportAtlas
