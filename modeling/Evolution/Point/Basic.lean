import Evolution.Footnote

/-!
Points, the nodes of a program's tree. A block holds points in order; the other three kinds are
leaves. The points of a tree are numbered from one in pre-order, the root first, and `preorder`
lists them so; `size` is their number.
-/

namespace Evolution

/-- One point of a program. A literal carries the footnote that gives its text. -/
inductive Point where
  /-- Points in sequence. -/
  | block (contents : List Point)
  /-- Performs the named instruction. -/
  | instruction (name : String)
  /-- Stands for what the name is bound to. -/
  | reference (name : String)
  /-- A typed literal. -/
  | literal (note : Footnote)
deriving Inhabited

namespace Point

def emptyBlock : Point := .block []

def isBlock : Point → Bool
  | .block _ => true
  | _ => false

/-- The points directly inside; a leaf has none. -/
def contents : Point → List Point
  | .block inner => inner
  | _ => []

mutual

/-- Equality of points is decided by comparing the two trees label by label. -/
protected def decEq : (p q : Point) → Decidable (p = q)
  | .block ps, .block qs =>
    match Point.decEqList ps qs with
    | .isTrue h => .isTrue (h ▸ rfl)
    | .isFalse h => .isFalse fun e => h (Point.block.inj e)
  | .instruction a, .instruction b =>
    if h : a = b then .isTrue (h ▸ rfl) else .isFalse fun e => h (Point.instruction.inj e)
  | .reference a, .reference b =>
    if h : a = b then .isTrue (h ▸ rfl) else .isFalse fun e => h (Point.reference.inj e)
  | .literal a, .literal b =>
    if h : a = b then .isTrue (h ▸ rfl) else .isFalse fun e => h (Point.literal.inj e)
  | .block _, .instruction _ => .isFalse (nomatch ·)
  | .block _, .reference _ => .isFalse (nomatch ·)
  | .block _, .literal _ => .isFalse (nomatch ·)
  | .instruction _, .block _ => .isFalse (nomatch ·)
  | .instruction _, .reference _ => .isFalse (nomatch ·)
  | .instruction _, .literal _ => .isFalse (nomatch ·)
  | .reference _, .block _ => .isFalse (nomatch ·)
  | .reference _, .instruction _ => .isFalse (nomatch ·)
  | .reference _, .literal _ => .isFalse (nomatch ·)
  | .literal _, .block _ => .isFalse (nomatch ·)
  | .literal _, .instruction _ => .isFalse (nomatch ·)
  | .literal _, .reference _ => .isFalse (nomatch ·)

protected def decEqList : (ps qs : List Point) → Decidable (ps = qs)
  | [], [] => .isTrue rfl
  | [], _ :: _ => .isFalse (nomatch ·)
  | _ :: _, [] => .isFalse (nomatch ·)
  | p :: ps, q :: qs =>
    match Point.decEq p q, Point.decEqList ps qs with
    | .isTrue h, .isTrue t => .isTrue (h ▸ t ▸ rfl)
    | .isFalse h, _ => .isFalse fun e => h (List.cons.inj e).1
    | _, .isFalse t => .isFalse fun e => t (List.cons.inj e).2

end

instance : DecidableEq Point := Point.decEq

mutual

/-- The number of points, the point itself included. -/
def size : Point → Nat
  | .block inner => 1 + sizes inner
  | .instruction _ => 1
  | .reference _ => 1
  | .literal _ => 1

def sizes : List Point → Nat
  | [] => 0
  | p :: rest => p.size + sizes rest

end

mutual

/-- The point and all points inside it, each before its contents. -/
def preorder : Point → List Point
  | .block inner => .block inner :: preorders inner
  | .instruction name => [.instruction name]
  | .reference name => [.reference name]
  | .literal note => [.literal note]

def preorders : List Point → List Point
  | [] => []
  | p :: rest => p.preorder ++ preorders rest

end

/-- The footnotes of the literals, in pre-order. -/
def footnotes (p : Point) : List Footnote :=
  p.preorder.filterMap fun
    | .literal note => some note
    | _ => none

theorem size_eq_succ_sizes (p : Point) : p.size = sizes p.contents + 1 := by
  cases p with
  | block inner => simp [size, contents, Nat.add_comm]
  | instruction _ => rfl
  | reference _ => rfl
  | literal _ => rfl

theorem sizes_append (ps qs : List Point) : sizes (ps ++ qs) = sizes ps + sizes qs := by
  induction ps with
  | nil => simp [sizes]
  | cons p rest ih => simp [sizes, ih, Nat.add_assoc]

theorem size_pos (p : Point) : 0 < p.size := by
  cases p with
  | block inner => exact Nat.lt_of_lt_of_le Nat.one_pos (Nat.le_add_right 1 (sizes inner))
  | instruction _ => exact Nat.one_pos
  | reference _ => exact Nat.one_pos
  | literal _ => exact Nat.one_pos

mutual

/-- The pre-order lists each point once. -/
theorem length_preorder : ∀ p : Point, p.preorder.length = p.size
  | .block inner => by simp [preorder, size, length_preorders inner, Nat.add_comm]
  | .instruction _ => rfl
  | .reference _ => rfl
  | .literal _ => rfl

theorem length_preorders : ∀ ps : List Point, (preorders ps).length = sizes ps
  | [] => rfl
  | p :: rest => by simp [preorders, sizes, length_preorder p, length_preorders rest]

end

end Point

end Evolution
