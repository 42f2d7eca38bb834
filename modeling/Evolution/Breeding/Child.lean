import Evolution.Answer.Basic
import Evolution.Draw.Uniform

/-!
Children. An operator draws programs together with the answers each was made of; a child becomes an
answer when it gets an identifier. It is one generation further than the furthest of its parents,
speaks the language of the first and has no scores, tags or marks. Generations are counted with 64
bits, so the parents of a child must not be in the last one.
-/

namespace Evolution

/-- A new program and the answers it was made of, the first parent first. -/
structure Child where
  program : Program
  parents : List Answer
deriving DecidableEq

namespace Child

/-- The generations behind a child: one more than behind any parent, none without parents. There is
no such number when a parent has the largest one. -/
def progress? : List Answer → Option UInt64
  | [] => some 0
  | first :: rest =>
    let most := rest.foldl (fun most a => max most a.progress) first.progress
    if most.toNat + 1 < UInt64.size then some (most + 1) else none

def answer? (c : Child) (id : AnswerId) (born : Instant) : Option Answer := do
  let progress ← progress? c.parents
  return { Answer.new id born c.program with
    progress
    ancestors := c.parents.map (·.id)
    language := (c.parents.head?.map (·.language)).getD Answer.defaultLanguage }

/-- The children as answers, with new identifiers in order. -/
def answers? (supply : Supply) : List Child → Option (List Answer × Supply)
  | [] => some ([], supply)
  | c :: rest => do
    let (id, later) := supply.fresh
    let a ← c.answer? id supply.now
    let (others, last) ← answers? later rest
    return (a :: others, last)

end Child

def Draw.times {α : Type} (draw : Draw α) : Nat → Draw (List α)
  | 0 => return []
  | n + 1 => return (← draw) :: (← Draw.times draw n)

/-- Makes a choice for each member of a list, a number of times before going on to the next. -/
def Draw.forEach {α β : Type} (draw : α → Draw β) (n : Nat) : List α → Draw (List β)
  | [] => return []
  | x :: rest => return (← (draw x).times n) ++ (← Draw.forEach draw n rest)

def Draw.pointOf (p : Program) : Draw Nat := do
  return (← Draw.below 64 p.size p.root.size_pos).val + 1

def Draw.someone (crowd : List Answer) (h : 0 < crowd.length) : Draw Answer := do
  return crowd.get (← Draw.place crowd.length h)

end Evolution
