/-!
# Dotted names

A name path is a root name followed by member names, so it always has a root.
-/

namespace DecisionLang

structure NamePath where
  root : String
  members : List String
  deriving DecidableEq

namespace NamePath

def ofName (name : String) : NamePath := ⟨name, []⟩

/-- The path with the given parts; no part at all counts as one empty part. -/
def ofParts : List String → NamePath
  | [] => ⟨"", []⟩
  | root :: members => ⟨root, members⟩

def parts (path : NamePath) : List String := path.root :: path.members

def text (path : NamePath) : String := ".".intercalate path.parts

def last (path : NamePath) : String := path.members.getLastD path.root

def length (path : NamePath) : Nat := path.parts.length

def isEmpty (path : NamePath) : Bool := path.parts.all String.isEmpty

/-- The path without its root, if anything is left. -/
def child? (path : NamePath) : Option NamePath :=
  match path.members with
  | [] => none
  | root :: members => some ⟨root, members⟩

/-- The path without its last part, if anything is left. -/
def parent? (path : NamePath) : Option NamePath :=
  match path.members with
  | [] => none
  | members => some ⟨path.root, members.dropLast⟩

def append (path : NamePath) (name : String) : NamePath :=
  { path with members := path.members ++ [name] }

@[simp] theorem parts_ofParts {parts : List String} (h : parts ≠ []) :
    (ofParts parts).parts = parts := by
  cases parts with
  | nil => exact absurd rfl h
  | cons => rfl

@[simp] theorem ofParts_parts (path : NamePath) : ofParts path.parts = path := rfl

@[simp] theorem last_append (path : NamePath) (name : String) :
    (path.append name).last = name := by
  simp [append, last]

@[simp] theorem parent?_append (path : NamePath) (name : String) :
    (path.append name).parent? = some path := by
  obtain ⟨root, members⟩ := path
  cases members with
  | nil => rfl
  | cons head tail =>
    show some (NamePath.mk root ((head :: tail) ++ [name]).dropLast) = _
    rw [List.dropLast_concat]

end NamePath

end DecisionLang
