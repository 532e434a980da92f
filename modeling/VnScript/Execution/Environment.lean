import VnScript.Value.Basic

namespace VnScript

/-- The bindings of a run, sorted by name. Blocks open no scopes, so there is
one value for a name. -/
structure Environment where
  bindings : List (String × Value)

namespace Environment

def empty : Environment := ⟨[]⟩

def lookupIn (name : String) : List (String × Value) → Option Value
  | [] => none
  | (n, v) :: rest => if n = name then some v else lookupIn name rest

def insertIn (name : String) (value : Value) : List (String × Value) → List (String × Value)
  | [] => [(name, value)]
  | (n, v) :: rest =>
    if n = name then (name, value) :: rest
    else if name < n then (name, value) :: (n, v) :: rest
    else (n, v) :: insertIn name value rest

def get? (e : Environment) (name : String) : Option Value := lookupIn name e.bindings

def insert (e : Environment) (name : String) (value : Value) : Environment :=
  ⟨insertIn name value e.bindings⟩

theorem get?_insert (e : Environment) (name other : String) (value : Value) :
    (e.insert name value).get? other = if name = other then some value else e.get? other := by
  obtain ⟨bindings⟩ := e
  simp only [get?, insert]
  induction bindings with
  | nil => simp [insertIn, lookupIn]
  | cons b rest ih =>
    obtain ⟨n, v⟩ := b
    simp only [insertIn]
    split
    · subst n
      simp only [lookupIn]
      split <;> rfl
    · split
      · simp only [lookupIn]
      · simp only [lookupIn, ih]
        split
        · subst n
          rename_i h _
          simp [Ne.symm h]
        · rfl

end Environment

end VnScript
