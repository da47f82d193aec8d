import NeuraHash.Miner.Names

/-!
# Coordinates and rows (`tools/glm_product_judge.py`)

A caller names a coordinate by text or by a pair, and hands a state over as the rows of one
coordinate or as a mapping of several; `normalizeState` turns either into a mapping keyed by
coordinates.
-/

namespace NeuraHash

open Py

/-- A coordinate as a caller names it. -/
inductive CoordArg where
  | text (s : String)
  | pair (layer expert : Json)

/-- `_as_coord(c)`. -/
def asCoord (T : PyText) : CoordArg → Except PyErr Coord
  | .text s =>
    match s.splitOn ":" with
    | [layer, expert] => do
      let l ← (Json.str layer).toInt T
      let e ← (Json.str expert).toInt T
      return (l, e)
    | _ => .error .valueError
  | .pair layer expert => do
    let l ← layer.toInt T
    let e ← expert.toInt T
    return (l, e)

/-- A coordinate that was converted already. -/
def CoordArg.of (c : Coord) : CoordArg := .pair (.int c.1) (.int c.2)

@[simp] theorem asCoord_of (T : PyText) (c : Coord) : asCoord T (.of c) = .ok c := rfl

variable {ρ : Type}

/-- A state as a caller gives it: nothing, the rows of one coordinate, or the rows of several. -/
inductive StateArg (ρ : Type) where
  | none
  | rows (d : Dict String ρ)
  | mapping (m : List (CoordArg × Dict String ρ))

/-- Rows by coordinate. -/
abbrev RowState (ρ : Type) := Dict Coord (Dict String ρ)

/-- `_ROW_KEYS`. -/
def rowKeys : List String := ["gate", "up", "down"]

/-- `normalize_state(state, coord)`. -/
def normalizeState (T : PyText) (coord : Option CoordArg) :
    StateArg ρ → Except PyErr (RowState ρ)
  | .none => .ok ∅
  | .rows d =>
    if rowKeys.all d.contains then
      match coord with
      | Option.none => .error .valueError
      | some c => do
        let c ← asCoord T c
        return Dict.ofList [(c, d)]
    else
      -- the names of the rows are read as coordinates, and an array is no dict
      d.keys.foldlM (fun _ k => do
        let _ ← asCoord T (.text k)
        throw .typeError) ∅
  | .mapping m => do
    let pairs ← m.mapM fun e => do
      let c ← asCoord T e.1
      return (c, e.2)
    return Dict.ofList pairs

/-! ## The rows of a network -/

/-- The rows of an expert. -/
inductive Part where
  | gate
  | up
  | down
  deriving DecidableEq

namespace Part

/-- The key of a row in a state. -/
def key : Part → String
  | gate => "gate"
  | up => "up"
  | down => "down"

def all : List Part := [gate, up, down]

end Part

/-- A row of the resident slabs: a layer and an index. -/
abbrev Place := ℤ × ℕ

/-- The rows of all experts, as the slabs store them. -/
abbrev ExpertRows (σ : Type) := Place → Part → σ

end NeuraHash
