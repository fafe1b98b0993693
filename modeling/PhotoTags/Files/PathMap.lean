import PhotoTags.Files.Path

/-!
Values kept under paths. Two paths with the same components have one value between them.
-/

namespace PhotoTags

structure PathMap (α : Type) where
  items : List (List String × α)
  deriving DecidableEq, Repr

namespace PathMap

variable {α : Type}

def empty : PathMap α := ⟨[]⟩

def get? (map : PathMap α) (path : Path) : Option α :=
  (map.items.find? (·.1 == path.components)).map (·.2)

def erase (map : PathMap α) (path : Path) : PathMap α :=
  ⟨map.items.filter (·.1 != path.components)⟩

def insert (map : PathMap α) (path : Path) (value : α) : PathMap α :=
  ⟨(path.components, value) :: (map.erase path).items⟩

theorem find?_filter_ne {path other : Path} (differ : path.components ≠ other.components)
    (items : List (List String × α)) :
    (items.filter (·.1 != path.components)).find? (·.1 == other.components) =
      items.find? (·.1 == other.components) := by
  induction items with
  | nil => rfl
  | cons item rest ih =>
      by_cases dropped : item.1 = path.components
      · simp [dropped, differ, ih]
      · simp [dropped, List.find?_cons, ih]

theorem get?_erase (map : PathMap α) (path other : Path) :
    (map.erase path).get? other =
      if path.components = other.components then none else map.get? other := by
  by_cases same : path.components = other.components
  · simp [erase, get?, same]
  · simp [erase, get?, same, find?_filter_ne same]

theorem get?_insert (map : PathMap α) (path other : Path) (value : α) :
    (map.insert path value).get? other =
      if path.components = other.components then some value else map.get? other := by
  by_cases same : path.components = other.components
  · simp [insert, get?, same]
  · simp [insert, erase, get?, same, find?_filter_ne same]

end PathMap

end PhotoTags
