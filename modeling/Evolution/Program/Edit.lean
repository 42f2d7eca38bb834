import Evolution.Point.Edit
import Evolution.Program.Basic

/-!
Edits of a program by point number. An edit gives a new program and keeps the unused footnotes; one
that goes through text adds the unused footnotes of that text after them.
-/

namespace Evolution

inductive EditError where
  /-- There is no point with this number. -/
  | outOfRange (index points : Nat)
  /-- The replacement is no blueprint. -/
  | unreadable (cause : Blueprint.ParseError)
deriving DecidableEq, Inhabited

namespace EditError

def name : EditError → String
  | outOfRange .. => "IndexOutOfRange"
  | unreadable cause => "Parse." ++ cause.name

def message : EditError → String
  | outOfRange index points =>
    s!"point {index} is out of range (program has {points} points)"
  | unreadable cause => "parse error: " ++ cause.message

def isOutOfRange : EditError → Bool
  | outOfRange _ _ => true
  | unreadable _ => false

end EditError

namespace Program

def missing (p : Program) (i : Nat) : EditError := .outOfRange i p.size

def point (p : Program) (i : Nat) : Except EditError Point :=
  match p.root.get? i with
  | some q => .ok q
  | none => .error (p.missing i)

/-- The point numbered `i` as a program of its own. -/
def subtree (p : Program) (i : Nat) : Except EditError Program :=
  (p.point i).map ofPoint

/-- The program without point `i`; without its root it is `block {}`. -/
def deletePoint (p : Program) (i : Nat) : Except EditError Program :=
  if i = 1 then .ok { p with root := .emptyBlock }
  else
    match p.root.delete? i with
    | some root => .ok { p with root }
    | none => .error (p.missing i)

/-- The program with a tree in the place of point `i`. -/
def replacePoint (p : Program) (i : Nat) (q : Point) : Except EditError Program :=
  match p.root.replace? i q with
  | some root => .ok { p with root }
  | none => .error (p.missing i)

/-- The program with more unused footnotes, after those it has. -/
def appendUnused (p : Program) (notes : List Footnote) : Program :=
  { p with unused := p.unused ++ notes }

/-- The program with the root of a blueprint in the place of point `i`. The text is read before the
number is looked at. -/
def replaceWithText (p : Program) (i : Nat) (text : String) : Except EditError Program :=
  match parse text with
  | .error cause => .error (.unreadable cause)
  | .ok q => (p.replacePoint i q.root).map (·.appendUnused q.unused)

/-- The slots of a program: the contents of a block at the root, otherwise the root alone. -/
def backbone (p : Program) : List Point :=
  match p.root with
  | .block inner => inner
  | leaf => [leaf]

/-- The program with every literal text rewritten by an effectful function: those of the tree in
pre-order, then the unused. -/
def mapTexts {m : Type → Type} [Monad m] (f : Footnote → m String) (p : Program) : m Program := do
  let root ← p.root.mapTexts f
  let unused ← p.unused.mapM fun note => return { note with text := ← f note }
  return ⟨root, unused⟩

end Program

end Evolution
