/-! Finite maps from names that remember the order in which the names came. -/

namespace TypedImp

/-- Entries in order of arrival; the first entry of a name counts. --/
abbrev Assoc (α : Type) := List (String × α)

namespace Assoc
variable {α : Type}

def get? (m : Assoc α) (name : String) : Option α := m.lookup name

def has (m : Assoc α) (name : String) : Bool := (m.get? name).isSome

/-- Gives `name` the value `a`: a known name keeps its place, a new one comes last. --/
def insert : Assoc α → String → α → Assoc α
  | [], name, a => [(name, a)]
  | (k, b) :: m, name, a => if k = name then (k, a) :: m else (k, b) :: insert m name a

/-- The map that the entries build one after the other. --/
def ofList (entries : List (String × α)) : Assoc α :=
  entries.foldl (fun m e => m.insert e.1 e.2) []

def names (m : Assoc α) : List String := m.map (·.1)

/-- The entries in the order of their names. --/
def sorted (m : Assoc α) : Assoc α := m.mergeSort fun a b => a.1 ≤ b.1

/-! ### Laws -/

theorem get?_insert_self (m : Assoc α) (name : String) (a : α) :
    (insert m name a).get? name = some a := by
  induction m with
  | nil => simp [insert, get?]
  | cons e m ih =>
    obtain ⟨k, b⟩ := e
    by_cases h : k = name
    · simp [insert, get?, h]
    · simp only [insert, if_neg h]
      simpa [get?, List.lookup_cons, beq_false_of_ne (Ne.symm h)] using ih

theorem get?_insert_of_ne (m : Assoc α) {name other : String} (a : α) (h : other ≠ name) :
    (insert m name a).get? other = m.get? other := by
  induction m with
  | nil => simp [insert, get?, List.lookup_cons, beq_false_of_ne h]
  | cons e m ih =>
    obtain ⟨k, b⟩ := e
    by_cases hk : k = name
    · subst hk
      simp [insert, get?, List.lookup_cons, beq_false_of_ne h]
    · simp only [insert, if_neg hk]
      simp only [get?, List.lookup_cons] at ih ⊢
      rw [ih]

theorem mem_of_get? {m : Assoc α} {name : String} {a : α} (h : m.get? name = some a) : (name, a) ∈ m := by
  obtain ⟨l, l', hl, -⟩ := List.lookup_eq_some_iff.mp h
  rw [hl]
  simp

theorem mem_insert {m : Assoc α} {name : String} {a : α} {e : String × α} (h : e ∈ insert m name a) :
    e = (name, a) ∨ e ∈ m := by
  induction m with
  | nil => exact .inl (List.mem_singleton.mp h)
  | cons k m ih =>
    unfold insert at h
    split at h
    · next hk =>
      rcases List.mem_cons.mp h with rfl | h
      · exact .inl (by rw [hk])
      · exact .inr (List.mem_cons_of_mem _ h)
    · rcases List.mem_cons.mp h with rfl | h
      · exact .inr List.mem_cons_self
      · exact (ih h).imp_right (List.mem_cons_of_mem _)

theorem mem_ofList {entries : List (String × α)} {e : String × α} (h : e ∈ ofList entries) : e ∈ entries := by
  have hfold : ∀ m : Assoc α, e ∈ entries.foldl (fun m e => m.insert e.1 e.2) m → e ∈ m ∨ e ∈ entries := by
    clear h
    induction entries with
    | nil => exact fun _ h => .inl h
    | cons k entries ih =>
      intro m h
      rcases ih _ h with h | h
      · rcases mem_insert h with rfl | h
        · exact .inr List.mem_cons_self
        · exact .inl h
      · exact .inr (List.mem_cons_of_mem _ h)
  exact (hfold [] h).resolve_left List.not_mem_nil

theorem has_insert (m : Assoc α) (x y : String) (a : α) :
    has (insert m x a) y = (y == x || m.has y) := by
  by_cases hyx : y = x
  · subst hyx
    rw [has, get?_insert_self, beq_self_eq_true]
    rfl
  · rw [has, get?_insert_of_ne m a hyx, beq_false_of_ne hyx]
    rfl

/-- Every name of the entries is in the map that they build. -/
theorem has_ofList {entries : List (String × α)} {x : String} (h : x ∈ entries.map Prod.fst) :
    (ofList entries).has x = true := by
  have hfold : ∀ m : Assoc α, x ∈ entries.map Prod.fst ∨ m.has x = true →
      has (entries.foldl (fun m e => m.insert e.1 e.2) m) x = true := by
    clear h
    induction entries with
    | nil => exact fun m h => h.resolve_left List.not_mem_nil
    | cons e entries ih =>
      intro m h
      refine ih _ ?_
      rw [has_insert]
      rcases h with h | h
      · rcases List.mem_cons.mp h with rfl | h
        · exact .inr (by simp)
        · exact .inl h
      · exact .inr (by simp [h])
  exact hfold [] (.inl h)

theorem insert_of_not_mem {m : Assoc α} {name : String} (h : name ∉ m.map Prod.fst) (a : α) :
    insert m name a = m ++ [(name, a)] := by
  induction m with
  | nil => rfl
  | cons e m ih =>
    rw [List.map_cons, List.mem_cons, not_or] at h
    rw [insert, if_neg (Ne.symm h.1), ih h.2, List.cons_append]

/-- Entries with distinct names are the map that they build. -/
theorem ofList_eq_self {entries : List (String × α)} (h : (entries.map Prod.fst).Nodup) :
    ofList entries = entries := by
  have hfold : ∀ m : Assoc α, ((m ++ entries).map Prod.fst).Nodup →
      entries.foldl (fun m e => m.insert e.1 e.2) m = m ++ entries := by
    clear h
    induction entries with
    | nil => exact fun m _ => (List.append_nil m).symm
    | cons e entries ih =>
      intro m h
      have hnew : e.1 ∉ m.map Prod.fst := fun hmem => by
        rw [List.map_append, List.nodup_append] at h
        exact h.2.2 _ hmem _ List.mem_cons_self rfl
      rw [List.foldl_cons, insert_of_not_mem hnew, ih _ (by simpa using h), List.append_assoc, List.singleton_append]
  exact hfold [] h

end Assoc
end TypedImp
