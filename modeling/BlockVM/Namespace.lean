import BlockVM.Value.Basic

namespace BlockVM

/-- Bindings of names in the order in which they were made. The list stands for the library map `IndexMap`.
What is granted of that map are the laws below: `get?_set_self`, `get?_set_of_ne` and `get?_remove_of_ne` for the
values, `names_set` and `names_remove` for the order. -/
structure Namespace where
  entries : List (String × Value)
deriving Inhabited

namespace Namespace

def empty : Namespace := ⟨[]⟩

def get? (space : Namespace) (name : String) : Option Value :=
  space.entries.lookup name

def names (space : Namespace) : List String :=
  space.entries.map (·.1)

def contains (space : Namespace) (name : String) : Bool :=
  (space.get? name).isSome

def size (space : Namespace) : Nat :=
  space.entries.length

/-- Replaces the value of a bound name in its place, or binds the name after all others. -/
def assign (name : String) (value : Value) : List (String × Value) → List (String × Value)
  | [] => [(name, value)]
  | (key, old) :: rest =>
      if key == name then (key, value) :: rest else (key, old) :: assign name value rest

def set (space : Namespace) (name : String) (value : Value) : Namespace :=
  ⟨assign name value space.entries⟩

/-- Unbinds a name; the others keep their order. -/
def remove (space : Namespace) (name : String) : Namespace :=
  ⟨space.entries.eraseP (·.1 == name)⟩

def ofList (bindings : List (String × Value)) : Namespace :=
  bindings.foldl (fun space (name, value) => space.set name value) empty

section

variable {name other : String} {value : Value}

theorem lookup_assign_self (name : String) (value : Value) (entries : List (String × Value)) :
    (assign name value entries).lookup name = some value := by
  induction entries with
  | nil => simp [assign]
  | cons entry rest ih =>
      obtain ⟨key, old⟩ := entry
      by_cases same : key = name
      · simp [assign, same]
      · have missed : (name == key) = false := beq_false_of_ne (Ne.symm same)
        simp [assign, same, List.lookup_cons, missed, ih]

theorem lookup_assign_of_ne (ne : other ≠ name) (entries : List (String × Value)) :
    (assign name value entries).lookup other = entries.lookup other := by
  induction entries with
  | nil => simp [assign, ne]
  | cons entry rest ih =>
      obtain ⟨key, old⟩ := entry
      by_cases same : key = name
      · subst same
        have missed : (other == key) = false := beq_false_of_ne ne
        simp [assign, List.lookup_cons, missed]
      · simp [assign, same, List.lookup_cons, ih]

theorem get?_set_self (space : Namespace) (name : String) (value : Value) :
    (space.set name value).get? name = some value :=
  lookup_assign_self name value space.entries

theorem get?_set_of_ne (ne : other ≠ name) (space : Namespace) :
    (space.set name value).get? other = space.get? other :=
  lookup_assign_of_ne ne space.entries

theorem keys_assign (name : String) (value : Value) (entries : List (String × Value)) :
    (assign name value entries).map (·.1) =
      if name ∈ entries.map (·.1) then entries.map (·.1) else entries.map (·.1) ++ [name] := by
  induction entries with
  | nil => simp [assign]
  | cons entry rest ih =>
      obtain ⟨key, old⟩ := entry
      by_cases same : key = name
      · simp [assign, same]
      · have other : name ≠ key := Ne.symm same
        rw [assign, if_neg (by simpa using same), List.map_cons, ih]
        split <;> simp_all

theorem names_set (space : Namespace) (name : String) (value : Value) :
    (space.set name value).names = if name ∈ space.names then space.names else space.names ++ [name] :=
  keys_assign name value space.entries

theorem names_remove (space : Namespace) (name : String) : (space.remove name).names = space.names.erase name := by
  rw [names, names, List.erase_eq_eraseP', List.eraseP_map]
  rfl

theorem lookup_eraseP_of_ne (ne : other ≠ name) (entries : List (String × Value)) :
    (entries.eraseP (·.1 == name)).lookup other = entries.lookup other := by
  induction entries with
  | nil => rfl
  | cons entry rest ih =>
      obtain ⟨key, old⟩ := entry
      by_cases same : key = name
      · subst same
        have missed : (other == key) = false := beq_false_of_ne ne
        simp [List.lookup_cons, missed]
      · simp [same, List.lookup_cons, ih]

theorem get?_remove_of_ne (ne : other ≠ name) (space : Namespace) :
    (space.remove name).get? other = space.get? other :=
  lookup_eraseP_of_ne ne space.entries

end

end Namespace

end BlockVM
