import FlowContract.Json.Value

/-!
Places in a document: the chain of keys and positions that leads from the whole document to one of
its parts.
-/

namespace FlowContract

open Json (Value)

/-- One step into a document. -/
inductive Segment where
  | key (name : String)
  | index (position : Nat)
  deriving DecidableEq

/-- The part of a document behind one step, if there is one. -/
def Segment.follow? : Segment → Value → Option Value
  | .key name, v => v.get? name
  | .index position, v => v.items?.bind (·[position]?)

/-- The steps from a document to one of its parts, outermost first. -/
structure Path where
  segments : List Segment
  deriving DecidableEq

namespace Path

def root : Path := ⟨[]⟩

instance : Inhabited Path := ⟨root⟩

def push (p : Path) (segment : Segment) : Path := ⟨p.segments ++ [segment]⟩

/-- One step further, into a mapping. -/
def key (p : Path) (name : String) : Path := p.push (.key name)

/-- One step further, into a list. -/
def index (p : Path) (position : Nat) : Path := p.push (.index position)

/-- One step back; the whole document lies within nothing. -/
def parent (p : Path) : Path := ⟨p.segments.dropLast⟩

def isRoot (p : Path) : Bool := p.segments.isEmpty

/-- A path seen from where its first step begins, now seen from further out. -/
def within (outer inner : Path) : Path := ⟨outer.segments ++ inner.segments⟩

/-- The part of a document to which a path leads, if there is one. -/
def resolve? (p : Path) (v : Value) : Option Value :=
  p.segments.foldlM (fun v segment => segment.follow? v) v

theorem resolve?_root (v : Value) : root.resolve? v = some v := rfl

theorem resolve?_cons (segment : Segment) (rest : List Segment) (v : Value) :
    (mk (segment :: rest)).resolve? v = (segment.follow? v).bind (mk rest).resolve? :=
  List.foldlM_cons

theorem resolve?_push (p : Path) (segment : Segment) (v : Value) :
    (p.push segment).resolve? v = (p.resolve? v).bind segment.follow? := by
  simp only [resolve?, push, List.foldlM_append]
  cases p.segments.foldlM (fun v segment => segment.follow? v) v with
  | none => rfl
  | some part => exact Option.bind_fun_some _

theorem resolve?_index (p : Path) (position : Nat) (v : Value) :
    (p.index position).resolve? v = (p.resolve? v).bind fun part =>
      part.items?.bind (·[position]?) :=
  resolve?_push p (.index position) v

/-- The way back from a member leads to where the step was taken. -/
theorem parent_push (p : Path) (segment : Segment) : (p.push segment).parent = p := by
  simp only [parent, push, List.dropLast_concat]

/-- Following a path that is seen from further out is following the outer path, then the inner
one. -/
theorem resolve?_within (outer inner : Path) (v : Value) :
    (outer.within inner).resolve? v = (outer.resolve? v).bind inner.resolve? :=
  List.foldlM_append

end Path

/-- The text of a step that is not the first. -/
def Segment.write : Segment → String
  | .key name => "." ++ name
  | .index position => "[" ++ toString position ++ "]"

/-- The text of a path: keys are separated by points, positions stand in brackets. -/
def Path.write (p : Path) : String :=
  match p.segments with
  | [] => "<root>"
  | .key name :: rest => name ++ String.join (rest.map Segment.write)
  | first :: rest => first.write ++ String.join (rest.map Segment.write)

end FlowContract
