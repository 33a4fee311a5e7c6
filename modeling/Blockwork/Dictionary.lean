/-!
Finite maps from names, kept in the order of their keys. A key that is written twice keeps its
last value.
-/

namespace Blockwork

/-- Entries in strictly increasing order of their keys (by code points). -/
structure Dictionary (α : Type) where
  entries : List (String × α)
  deriving Repr, Inhabited

namespace Dictionary

variable {α : Type}

def empty : Dictionary α := ⟨[]⟩

instance : EmptyCollection (Dictionary α) := ⟨empty⟩

def insertEntry (key : String) (a : α) : List (String × α) → List (String × α)
  | [] => [(key, a)]
  | (k, b) :: rest =>
    if key = k then (key, a) :: rest
    else if key < k then (key, a) :: (k, b) :: rest
    else (k, b) :: insertEntry key a rest

def insert (d : Dictionary α) (key : String) (a : α) : Dictionary α :=
  ⟨insertEntry key a d.entries⟩

def ofList (entries : List (String × α)) : Dictionary α :=
  entries.foldl (fun d (key, a) => d.insert key a) empty

def get? (d : Dictionary α) (key : String) : Option α := d.entries.lookup key

def contains (d : Dictionary α) (key : String) : Bool := (d.get? key).isSome

def size (d : Dictionary α) : Nat := d.entries.length

def keys (d : Dictionary α) : List String := d.entries.map (·.1)

@[simp] theorem get?_empty (key : String) : (empty : Dictionary α).get? key = none := rfl

theorem lookup_cons_ite (key k : String) (b : α) (rest : List (String × α)) :
    ((k, b) :: rest).lookup key = if key = k then some b else rest.lookup key := by
  rw [List.lookup_cons]
  by_cases h : key = k
  · rw [if_pos h, beq_iff_eq.2 h]
  · rw [if_neg h, beq_false_of_ne h]

theorem lookup_insertEntry (key key' : String) (a : α) (entries : List (String × α)) :
    (insertEntry key a entries).lookup key' =
      if key' = key then some a else entries.lookup key' := by
  induction entries with
  | nil => simp [insertEntry, lookup_cons_ite]
  | cons e rest ih =>
    obtain ⟨k, b⟩ := e
    rw [insertEntry]
    split
    · next h => subst h; simp only [lookup_cons_ite]; split <;> rfl
    · split
      · simp only [lookup_cons_ite]
      · next h _ =>
        simp only [lookup_cons_ite, ih]
        split
        · next h' => rw [if_neg fun e => h (e.symm.trans h')]
        · rfl

/-- A write is seen under its own key and nowhere else. -/
@[simp] theorem get?_insert (d : Dictionary α) (key key' : String) (a : α) :
    (d.insert key a).get? key' = if key' = key then some a else d.get? key' :=
  lookup_insertEntry key key' a d.entries

end Dictionary

end Blockwork
