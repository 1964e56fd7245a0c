/-! Values under names. Names are compared by code points, which is also the order of their UTF-8
bytes. -/

namespace Verbatim

theorem lookup_cons_eq_if {α : Type u} (other : String) (entry : String × α)
    (rest : List (String × α)) :
    (entry :: rest).lookup other = if other = entry.1 then some entry.2 else rest.lookup other := by
  rw [List.lookup_cons]
  by_cases same : other = entry.1
  · rw [if_pos same, beq_iff_eq.2 same]
  · rw [if_neg same, beq_false_of_ne same]

/-- Values in increasing order of their names, each name once. -/
structure Entries (α : Type u) where
  toList : List (String × α)
  increasing : (toList.map Prod.fst).Pairwise (· < ·)

namespace Entries

variable {α : Type u}

def empty : Entries α := ⟨[], .nil⟩

def names (entries : Entries α) : List String := entries.toList.map Prod.fst

def get? (entries : Entries α) (name : String) : Option α := entries.toList.lookup name

def contains (entries : Entries α) (name : String) : Bool := (entries.get? name).isSome

/-! Insertion keeps the order. -/

def insertInto (name : String) (value : α) : List (String × α) → List (String × α)
  | [] => [(name, value)]
  | (other, old) :: rest =>
    if name < other then (name, value) :: (other, old) :: rest
    else if name = other then (name, value) :: rest
    else (other, old) :: insertInto name value rest

theorem mem_names_insertInto {name other : String} {value : α} {entries : List (String × α)}
    (member : other ∈ (insertInto name value entries).map Prod.fst) :
    other = name ∨ other ∈ entries.map Prod.fst := by
  induction entries with
  | nil => simpa [insertInto] using member
  | cons entry rest induction =>
    rw [insertInto] at member
    split at member
    · simpa using member
    · split at member
      next equal => simp_all
      next =>
        simp only [List.map_cons, List.mem_cons] at member ⊢
        rcases member with rfl | member
        · exact .inr (.inl rfl)
        · exact (induction member).imp_right .inr

theorem increasing_insertInto {entries : List (String × α)}
    (increasing : (entries.map Prod.fst).Pairwise (· < ·)) (name : String) (value : α) :
    ((insertInto name value entries).map Prod.fst).Pairwise (· < ·) := by
  induction entries with
  | nil => simp [insertInto]
  | cons entry rest induction =>
    obtain ⟨below, ordered⟩ := List.pairwise_cons.1 increasing
    rw [insertInto]
    split
    next before =>
      refine List.pairwise_cons.2 ⟨fun other member => ?_, increasing⟩
      rcases List.mem_cons.1 member with rfl | member
      · exact before
      · exact Std.lt_trans before (below other member)
    next notBefore =>
      split
      next equal => subst equal; exact List.pairwise_cons.2 ⟨below, ordered⟩
      next different =>
        refine List.pairwise_cons.2 ⟨fun other member => ?_, induction ordered⟩
        rcases mem_names_insertInto member with rfl | member
        · exact Std.lt_of_le_of_ne (Std.not_lt.1 notBefore) (Ne.symm different)
        · exact below other member

/-- A later value replaces an earlier one of the same name. -/
def insert (entries : Entries α) (name : String) (value : α) : Entries α :=
  ⟨insertInto name value entries.toList, increasing_insertInto entries.increasing name value⟩

theorem lookup_insertInto (name other : String) (value : α) (entries : List (String × α)) :
    (insertInto name value entries).lookup other =
      if other = name then some value else entries.lookup other := by
  induction entries with
  | nil => rw [insertInto, lookup_cons_eq_if]
  | cons entry rest induction =>
    rw [insertInto]
    split
    · rw [lookup_cons_eq_if]
    · split
      next same => rw [lookup_cons_eq_if, lookup_cons_eq_if, same]; split <;> rfl
      next apart =>
        rw [lookup_cons_eq_if, induction, lookup_cons_eq_if]
        by_cases here : other = entry.1
        · rw [if_pos here, if_pos here, if_neg fun equal => apart (equal.symm.trans here)]
        · rw [if_neg here, if_neg here]

theorem get?_insert (entries : Entries α) (name other : String) (value : α) :
    (entries.insert name value).get? other =
      if other = name then some value else entries.get? other :=
  lookup_insertInto name other value entries.toList

theorem mem_names_iff {entries : Entries α} {name : String} :
    name ∈ entries.names ↔ entries.get? name ≠ none := by
  rw [names, get?, Ne, List.lookup_eq_none_iff, Classical.not_forall, List.mem_map]
  exact exists_congr fun entry => by rw [Classical.not_imp, bne_iff_ne, Classical.not_not, eq_comm]

/-- Of several values of one name the last counts. -/
def ofList (entries : List (String × α)) : Entries α :=
  entries.foldl (fun sorted entry => sorted.insert entry.1 entry.2) empty

example : (ofList [("b", 1), ("a", 2), ("b", 3)]).toList = [("a", 2), ("b", 3)] := by decide

end Entries

end Verbatim
