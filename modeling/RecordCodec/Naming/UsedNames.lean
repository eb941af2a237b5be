import RecordCodec.Text.Casing

/-!
Identifiers that differ in more than case. `UsedNames` holds the lower-case forms of identifiers
already handed out in one scope. A new identifier is the candidate followed by as few collision
markers as make it nonempty and unused; since every marker makes the lower-case form longer, one
more marker than there are names in use always suffices.
-/

namespace RecordCodec.Naming

structure UsedNames where
  folded : List String
deriving DecidableEq, Repr

namespace UsedNames

def empty : UsedNames := ⟨[]⟩

def contains (used : UsedNames) (identifier : String) : Bool :=
  used.folded.contains (Text.lower identifier)

/-- The number of identifiers, those that differ only in case counting once. -/
def size (used : UsedNames) : Nat := used.folded.length

def insert (used : UsedNames) (identifier : String) : UsedNames :=
  if used.contains identifier then used else ⟨used.folded ++ [Text.lower identifier]⟩

/-- The names with `reserved` taken from the start. -/
def reserving (reserved : List String) : UsedNames := reserved.foldl insert empty

/-- Adds markers while the identifier is empty or in use, at most so many. -/
def firstFree (used : UsedNames) (marker : Char) : Nat → String → String
  | 0, identifier => identifier
  | n + 1, identifier =>
      if identifier = "" ∨ used.contains identifier then
        firstFree used marker n (identifier.push marker)
      else identifier

/-- Hands out an identifier for a candidate. -/
def claim (used : UsedNames) (candidate : String) (marker : Char) : String × UsedNames :=
  let identifier := used.firstFree marker (used.size + 1) candidate
  (identifier, used.insert identifier)

/-- Hands out identifiers for candidates in order. -/
def claimAll (used : UsedNames) (marker : Char) : List String → List String
  | [] => []
  | candidate :: rest =>
      let (identifier, used) := used.claim candidate marker
      identifier :: claimAll used marker rest

@[simp] theorem length_claimAll (used : UsedNames) (marker : Char) (candidates : List String) :
    (used.claimAll marker candidates).length = candidates.length := by
  induction candidates generalizing used with
  | nil => rfl
  | cons c rest ih => simp [claimAll, ih]

end UsedNames
end RecordCodec.Naming
