-- SUMMARY: A tree of squares over the nodes, by which far nodes act as one.
import ImportAtlas.Layout.Force

/-! # Quadtrees

The charges of all nodes on one node are summed over a tree of squares. A square with few nodes holds
them itself; a fuller one is divided into four. A square that is small for its distance acts as a
single charge in its centre of mass, so a sum does not have to visit every node. -/

namespace ImportAtlas

/-! ## Squares -/

structure Square where
  /-- the upper left corner -/
  corner : Point
  side : Float32

/-- The four parts of a square. -/
inductive Quadrant where
  | upperLeft | upperRight | lowerLeft | lowerRight
  deriving DecidableEq, Repr

namespace Quadrant

def all : List Quadrant := [upperLeft, upperRight, lowerLeft, lowerRight]

def of (right lower : Bool) : Quadrant :=
  match right, lower with
  | false, false => upperLeft
  | true, false => upperRight
  | false, true => lowerLeft
  | true, true => lowerRight

def isRight : Quadrant → Bool
  | upperRight | lowerRight => true
  | _ => false

def isLower : Quadrant → Bool
  | lowerLeft | lowerRight => true
  | _ => false

end Quadrant

namespace Square

/-- The square around some points, with a margin of 1. There is none if there are no points or if they
reach beyond all bounds. -/
def around : List Point → Option Square
  | [] => none
  | p :: ps =>
    let low := ps.foldl (fun a q => ⟨Single.min a.x q.x, Single.min a.y q.y⟩) p
    let high := ps.foldl (fun a q => ⟨Single.max a.x q.x, Single.max a.y q.y⟩) p
    if low.x.isFinite && low.y.isFinite && high.x.isFinite && high.y.isFinite then
      let span := high - low
      some ⟨low - ⟨1.0, 1.0⟩, Single.max (Single.max span.x span.y) 1.0 + 2.0⟩
    else none

/-- Whether a point lies in a square; the border belongs to it. -/
def contains (s : Square) (p : Point) : Bool :=
  let far := s.corner + ⟨s.side, s.side⟩
  s.corner.x ≤ p.x && s.corner.y ≤ p.y && p.x ≤ far.x && p.y ≤ far.y

def half (s : Square) : Float32 := s.side * 0.5

/-- The part in which a point belongs. -/
def quadrant (s : Square) (p : Point) : Quadrant :=
  .of (s.corner.x + s.half ≤ p.x) (s.corner.y + s.half ≤ p.y)

/-- A part of a square. -/
def part (s : Square) (q : Quadrant) : Square :=
  ⟨s.corner + ⟨if q.isRight then s.half else 0.0, if q.isLower then s.half else 0.0⟩, s.half⟩

end Square

/-! ## Cells -/

/-- A node as the tree sees it: its number and its place. -/
structure Particle where
  index : Nat
  pos : Point

/-- What a cell weighs: how many particles it holds and the sum of their places. -/
structure Load where
  count : Nat := 0
  sum : Point := .zero

namespace Load

def add (w : Load) (p : Point) : Load := ⟨w.count + 1, w.sum + p⟩

/-- The mass, counted in single precision: beyond 2^24 another particle adds nothing. -/
def mass (w : Load) : Float32 := Float32.ofNat (Nat.min w.count 0x1000000)

/-- The centre of mass. -/
def center (w : Load) : Point := if w.count = 0 then w.sum else w.sum.shrink w.mass

def ofList (ps : List Particle) : Load := ps.foldl (fun w p => w.add p.pos) {}

@[simp] theorem count_add (w : Load) (p : Point) : (w.add p).count = w.count + 1 := rfl

end Load

/-- The cell of a square. The number says how often it can still be divided. Cells are numbered in the
order in which they came to be; a divided cell knows the number of the first of its four parts, which
follow each other. -/
inductive Cell : Nat → Type where
  | leaf {room : Nat} (load : Load) (particles : List Particle) : Cell room
  | branch {room : Nat} (load : Load) (first : Nat)
      (upperLeft upperRight lowerLeft lowerRight : Cell room) : Cell (room + 1)

namespace Cell

/-- How many particles a cell holds before it is divided. -/
def capacity : Nat := 8

def empty {room : Nat} : Cell room := leaf {} []

def load {room : Nat} : Cell room → Load
  | leaf w _ => w
  | branch w .. => w

/-- The particles of a cell and of all its parts. -/
def particles {room : Nat} : Cell room → List Particle
  | leaf _ ps => ps
  | branch _ _ a b c d => a.particles ++ b.particles ++ c.particles ++ d.particles

/-- The leaf that gets those of some particles that belong in one part of a square. -/
def leafOf {room : Nat} (s : Square) (ps : List Particle) (q : Quadrant) : Cell room :=
  let mine := ps.filter fun p => s.quadrant p.pos = q
  leaf (.ofList mine) mine

/-- Add a particle to the cell of a square. `next` is the number for the next new cell. A full cell is
divided, as long as there is room, and hands its particles down. -/
def insert (p : Particle) : {room : Nat} → Square → Cell room → Nat → Cell room × Nat
  | 0, _, leaf w ps, next => (leaf (w.add p.pos) (ps ++ [p]), next)
  | room + 1, s, leaf w ps, next =>
    if ps.length < capacity then (leaf (w.add p.pos) (ps ++ [p]), next)
    else
      let q := s.quadrant p.pos
      let (child, after) := insert p (s.part q) (leafOf s ps q : Cell room) (next + 4)
      let pick (r : Quadrant) : Cell room := if r = q then child else leafOf s ps r
      (branch (w.add p.pos) next (pick .upperLeft) (pick .upperRight) (pick .lowerLeft)
        (pick .lowerRight), after)
  | _ + 1, s, branch w first a b c d, next =>
    let w := w.add p.pos
    match s.quadrant p.pos with
    | .upperLeft =>
      let (a, after) := insert p (s.part .upperLeft) a next
      (branch w first a b c d, after)
    | .upperRight =>
      let (b, after) := insert p (s.part .upperRight) b next
      (branch w first a b c d, after)
    | .lowerLeft =>
      let (c, after) := insert p (s.part .lowerLeft) c next
      (branch w first a b c d, after)
    | .lowerRight =>
      let (d, after) := insert p (s.part .lowerRight) d next
      (branch w first a b c d, after)

end Cell

/-! ## Trees -/

/-- The tree over some particles. -/
structure Quadtree where
  square : Square
  root : Cell 12
  /-- the number of cells -/
  size : Nat

namespace Quadtree

/-- Number places in order. -/
def particlesOf (ps : List Point) : List Particle := ps.zipIdx.map fun (p, i) => ⟨i, p⟩

def insert (t : Quadtree) (p : Particle) : Quadtree :=
  let (root, size) := t.root.insert p t.square t.size
  { t with root, size }

/-- The tree over some places. -/
def build (ps : List Point) : Option Quadtree := do
  let square ← Square.around ps
  return (particlesOf ps).foldl insert ⟨square, Cell.empty, 1⟩

end Quadtree

/-- What is on record about one cell of a tree. -/
structure CellRecord where
  number : Nat
  square : Square
  depth : Nat
  load : Load
  particles : List Particle
  first : Option Nat

namespace Cell

/-- The records of a cell and of all its parts. -/
def records {room : Nat} (number depth : Nat) (s : Square) : Cell room → List CellRecord
  | leaf w ps => [⟨number, s, depth, w, ps, none⟩]
  | branch w first a b c d =>
    ⟨number, s, depth, w, [], some first⟩ ::
      (a.records first (depth + 1) (s.part .upperLeft) ++
        b.records (first + 1) (depth + 1) (s.part .upperRight) ++
        c.records (first + 2) (depth + 1) (s.part .lowerLeft) ++
        d.records (first + 3) (depth + 1) (s.part .lowerRight))

end Cell

namespace Quadtree

/-- The cells of a tree in the order in which they came to be. -/
def cells (t : Quadtree) : List CellRecord :=
  (t.root.records 0 0 t.square).mergeSort fun a b => a.number ≤ b.number

end Quadtree

/-! ## The force on a node -/

/-- A cell at which the sum of charges stops: a leaf, whose particles count one by one, or a divided
cell that is far enough away to count as one charge. -/
structure Stop where
  room : Nat
  cell : Cell room

namespace Cell

/-- Whether a cell counts as one charge for a point. -/
def isFar {room : Nat} (c : Cell room) (s : Square) (theta : Float32) (p : Point) : Bool :=
  !s.contains p && s.side < theta * Point.length (c.load.center - p)

/-- Where the sum of charges on a point stops, in the order of the sum. -/
def stops {room : Nat} (theta : Float32) (p : Point) (s : Square) : Cell room → List Stop
  | whole@(leaf ..) => [⟨_, whole⟩]
  | whole@(branch _ _ a b c d) =>
    if whole.isFar s theta p then [⟨_, whole⟩]
    else
      d.stops theta p (s.part .lowerRight) ++ c.stops theta p (s.part .lowerLeft) ++
        b.stops theta p (s.part .upperRight) ++ a.stops theta p (s.part .upperLeft)

end Cell

namespace Stop

/-- Add the charges of a stop to a force on a particle, which does not act on itself. -/
def add (p : Particle) (strength : Float32) (force : Point) : Stop → Point
  | ⟨_, .leaf _ ps⟩ =>
    ps.foldl (fun f q => if q.index = p.index then f else f + charge p.pos q.pos strength p.index)
      force
  | ⟨_, .branch w ..⟩ => force + charge p.pos w.center (strength * w.mass) p.index

end Stop

namespace Quadtree

/-- The force of all charges on a particle. -/
def force (t : Quadtree) (p : Particle) (strength theta : Float32) : Point :=
  (t.root.stops theta p.pos t.square).foldl (Stop.add p strength) .zero

end Quadtree

end ImportAtlas
