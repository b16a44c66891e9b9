import WasmCore.Text.Cluster.Class

/-!
# Clusters of characters

A cluster is the longest run of code points, from its first one on, that is shown as one character.
Whether the next code point belongs to it depends on its class and on `Tail`, what the cluster ends
with so far: a mark continues nearly everything, a flag takes two regional indicators, a pictograph
takes another one only after a joiner. `clusterTail` splits the rest of a text where the cluster
ends, and `clusterTail_append` says that nothing is lost.
-/

namespace WasmCore.Text

/-- What a cluster ends with, as far as it matters for what may follow. -/
inductive Tail where
  | plain
  | carriageReturn
  /-- Nothing follows. -/
  | closed
  | prepended
  /-- One regional indicator, which is half a flag. -/
  | halfFlag
  /-- A pictograph, perhaps with marks. -/
  | pictograph
  /-- A pictograph and a joiner. -/
  | joined
  | hangulL
  | hangulV
  | hangulT
  deriving DecidableEq, Repr

namespace Tail

/-- The tail of a cluster of one character. -/
def ofClass : BreakClass → Tail
  | .carriageReturn => .carriageReturn
  | .lineFeed | .control => .closed
  | .prepended => .prepended
  | .regionalIndicator => .halfFlag
  | .pictograph => .pictograph
  | .hangulL => .hangulL
  | .hangulV | .hangulLV => .hangulV
  | .hangulT | .hangulLVT => .hangulT
  | .other | .extending | .joiner | .spacingMark => .plain

/-- The tail after one more character, if it belongs to the cluster. -/
def next? : Tail → BreakClass → Option Tail
  | carriageReturn, .lineFeed => some closed
  | carriageReturn, _ | closed, _ => none
  | _, .carriageReturn | _, .lineFeed | _, .control => none
  | pictograph, .extending => some pictograph
  | pictograph, .joiner => some joined
  | _, .extending | _, .joiner | _, .spacingMark => some plain
  | prepended, c => some (ofClass c)
  | joined, .pictograph => some pictograph
  | halfFlag, .regionalIndicator => some plain
  | hangulL, .hangulL => some hangulL
  | hangulL, .hangulV | hangulL, .hangulLV => some hangulV
  | hangulL, .hangulLVT => some hangulT
  | hangulV, .hangulV => some hangulV
  | hangulV, .hangulT | hangulT, .hangulT => some hangulT
  | _, _ => none

end Tail

/-- The characters that still belong to a cluster, and those after it. -/
def clusterTail (t : Tail) : List Char → List Char × List Char
  | [] => ([], [])
  | c :: rest =>
    match t.next? (breakClass c) with
    | none => ([], c :: rest)
    | some t =>
      let (more, after) := clusterTail t rest
      (c :: more, after)

theorem clusterTail_append (t : Tail) (cs : List Char) :
    (clusterTail t cs).1 ++ (clusterTail t cs).2 = cs := by
  induction cs generalizing t with
  | nil => rfl
  | cons c rest ih =>
    rw [clusterTail]
    split
    · rfl
    · simp [ih]

theorem length_clusterTail_le (t : Tail) (cs : List Char) :
    (clusterTail t cs).2.length ≤ cs.length := by
  have h := congrArg List.length (clusterTail_append t cs)
  rw [List.length_append] at h
  omega

end WasmCore.Text
