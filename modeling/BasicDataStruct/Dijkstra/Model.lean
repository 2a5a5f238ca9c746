import BasicDataStruct.Machine.Range

open machine machine.Exec

namespace basic_data_struct.dijkstra

def MAX : Int32 := 9999999

def LEN : Nat := 210

/-- The global arrays of the source, indexed by vertices. -/
structure Globals where
  map : Nat → Nat → Int32
  dist : Nat → Int32
  mark : Nat → Int32

def Globals.setMap (g : Globals) (i j : Nat) (x : Int32) : Globals :=
  { g with map := fun u v => if u = i ∧ v = j then x else g.map u v }

def Globals.setDist (g : Globals) (i : Nat) (x : Int32) : Globals :=
  { g with dist := fun v => if v = i then x else g.dist v }

def Globals.setMark (g : Globals) (i : Nat) (x : Int32) : Globals :=
  { g with mark := fun v => if v = i then x else g.mark v }

abbrev Prog := Exec Globals

def readMap (i j : Nat) : Prog Int32 := do
  inBounds i LEN
  inBounds j LEN
  return (← get).map i j

def writeMap (i j : Nat) (v : Int32) : Prog Unit := do
  inBounds i LEN
  inBounds j LEN
  modify fun g => g.setMap i j v

def readDist (i : Nat) : Prog Int32 := do
  inBounds i LEN
  return (← get).dist i

def writeDist (i : Nat) (v : Int32) : Prog Unit := do
  inBounds i LEN
  modify fun g => g.setDist i v

def readMark (i : Nat) : Prog Int32 := do
  inBounds i LEN
  return (← get).mark i

def writeMark (i : Nat) (v : Int32) : Prog Unit := do
  inBounds i LEN
  modify fun g => g.setMark i v

def init_body (i j : Nat) : Prog Unit := writeMap i j MAX

def init : Prog Unit := forRange (fun i _ => forRange (fun j _ => init_body i j) 0 LEN ()) 0 LEN ()

/-- The numbers `a`, `b` and `d` of one line of the input. -/
structure Edge where
  a : Nat
  b : Nat
  d : Int32
deriving DecidableEq

/-- The body of the loading loop of `main`. -/
def load_body (e : Edge) : Prog Unit := do
  if (← readMap e.a e.b) > e.d then
    writeMap e.b e.a e.d
    writeMap e.a e.b e.d
  else return ()

/-- The loading loop of `main`, over the lines of the input. -/
def load : List Edge → Prog Unit
  | [] => return ()
  | e :: edges => do
    load_body e
    load edges

/-- The body of the first loop of `myDijstra`. -/
def start_body (start i : Nat) : Prog Unit := do
  writeMark i 0
  writeDist i (← readMap start i)

/-- The body of the search for the nearest vertex that is not marked. -/
def min_body (j : Nat) (locals : Int32 × Option Nat) : Prog (Int32 × Option Nat) := do
  if (← readMark j) = 0 then
    if (← readDist j) < locals.1 then return (← readDist j, some j)
    else return locals
  else return locals

/-- The body of the relaxation loop. -/
def relax_body (pos j : Nat) : Prog Unit := do
  if (← readMark j) = 0 then
    if (← readDist j) > (← readDist pos) + (← readMap pos j) then
      writeDist j ((← readDist pos) + (← readMap pos j))
    else return ()
  else return ()

/-- The body of the main loop. The variable `pos` is declared outside of it and
keeps its value from one round to the next. -/
def round_body (n : Nat) (pos : Option Nat) : Prog (Option Nat ⊕ Option Nat) := do
  let (min, pos) ← forRange min_body 1 n (MAX, pos)
  if min = MAX then return .inr pos
  else
    let pos ← assigned pos
    writeMark pos 1
    forRange (fun j _ => relax_body pos j) 1 n ()
    return .inl (some pos)

def myDijstra (n start : Nat) : Prog Unit := do
  forRange (fun i _ => start_body start i) 1 n ()
  writeMark start 1
  writeDist start 0
  let _ ← forBreak (fun _ pos => round_body n pos) 1 n none

/-- The statements of `main`, for a given input. The source starts at vertex 1. -/
def main (n start : Nat) (edges : List Edge) : Prog Unit := do
  init
  load edges
  myDijstra n start

end basic_data_struct.dijkstra
