import WasmCore.Machine.Operands
import WasmCore.Store.Basic

/-!
# Frames and call stacks

A frame is the state of one call: where it belongs, its operand stack and its locals. A call stack
is never empty: its bottom frame belongs to the owner of the thread and is not left by execution.
-/

namespace WasmCore.Machine

/-- The state of one call. -/
structure Frame where
  location : Location
  /-- The operand stack, top first. -/
  values : List Value := []
  /-- The parameters, then the declared locals. -/
  locals : Array Value := #[]
  deriving DecidableEq, Repr

/-- Puts values on the operand stack, the last one on top; placeholders are dropped. -/
def Frame.pushAll (f : Frame) (vs : List Value) : Frame :=
  { f with values := vs.foldl (fun stack v => if v.isNil then stack else v :: stack) f.values }

/-- The calls in progress. -/
structure CallStack where
  /-- The innermost one. -/
  current : Frame
  /-- The others, innermost first. -/
  below : List Frame := []
  /-- The number of frames. -/
  depth : Nat := below.length + 1
  depth_eq : depth = below.length + 1 := by rfl
  deriving DecidableEq, Repr

namespace CallStack

/-- A stack with only a bottom frame. -/
def ofModule (a : ModuleAddr) : CallStack := { current := { location := ⟨a, none⟩ } }

variable (s : CallStack)

/-- Adds a frame. -/
def enter (f : Frame) : CallStack where
  current := f
  below := s.current :: s.below
  depth := s.depth + 1
  depth_eq := by simp [s.depth_eq]

/-- Removes the innermost frame, unless it is the bottom one. -/
def leave? : CallStack → Option CallStack
  | ⟨_, [], _, _⟩ => none
  | ⟨_, f :: fs, depth, h⟩ => some ⟨f, fs, depth - 1, by simp [h]⟩

/-- The locations of all frames, innermost first. -/
def trace : List Location := s.current.location :: s.below.map Frame.location

/-- Changes the innermost frame. -/
def modifyCurrent (f : Frame → Frame) : CallStack := { s with current := f s.current }

end CallStack

end WasmCore.Machine
