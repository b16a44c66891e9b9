/-!
# Control sequences

A terminal takes some of the bytes sent to it for commands and shows the others. `State.next`
follows the sequences of bytes that make up a command: an escape with what belongs to it, a control
sequence with parameters, a device control string, an operating system command, and strings that are
ignored. Only in the ground state is anything shown.
-/

namespace WasmCore.Terminal

/-- Where a terminal stands in a command. -/
inductive State where
  /-- In no command. -/
  | ground
  /-- After an escape. -/
  | escape
  | escapeIntermediate
  /-- In the parameters of a control sequence. -/
  | sequence
  | sequenceIntermediate
  /-- At the start of a device control string. -/
  | device
  | deviceParameter
  | deviceIntermediate
  /-- In the text of a device control string. -/
  | deviceText
  /-- In an operating system command. -/
  | systemCommand
  /-- In a string that is ignored. -/
  | ignored
  deriving DecidableEq, Repr

/-- The part that a byte can play in a command. -/
inductive ByteKind where
  /-- Gives the command up. -/
  | cancel
  | escape
  | control
  | intermediate
  | parameter
  | final
  /-- Starts or ends a command by itself, or is part of a character. -/
  | high
  deriving DecidableEq, Repr

/-- The kind of a byte. -/
def byteKind (b : UInt8) : ByteKind :=
  if b = 0x18 || b = 0x1a then .cancel
  else if b = 0x1b then .escape
  else if b < 0x20 || b = 0x7f then .control
  else if b < 0x30 then .intermediate
  else if b < 0x40 then .parameter
  else if b < 0x80 then .final
  else .high

namespace State

/-- What a high byte starts. -/
def started (b : UInt8) : State :=
  if b = 0x90 then device
  else if b = 0x9b then sequence
  else if b = 0x9d then systemCommand
  else if b = 0x98 || b = 0x9e || b = 0x9f then ignored
  else ground

/-- Whether text outside of ASCII is part of the command, byte for byte. -/
def takesText : State → Bool
  | deviceText | systemCommand => true
  | _ => false

/-- The state after a byte. After an escape, a final byte starts what the high byte `0x40` above it
starts. -/
def next (s : State) (b : UInt8) : State :=
  match s, byteKind b with
  | device, .escape => deviceText
  | _, .cancel => ground
  | _, .escape => escape
  | deviceText, .high => if b = 0x9c then ground else deviceText
  | systemCommand, .high => if b = 0x9c then ground else systemCommand
  | _, .high => started b
  | systemCommand, .control => if b = 0x07 then ground else systemCommand
  | device, .control => if 0x08 ≤ b && b ≤ 0x0d then deviceText else device
  | s, .control => s
  | ground, _ => ground
  | deviceText, _ => deviceText
  | systemCommand, _ => systemCommand
  | ignored, _ => ignored
  | escape, .intermediate | escapeIntermediate, .intermediate => escapeIntermediate
  | escape, .final => started (b + 0x40)
  | escape, .parameter | escapeIntermediate, _ => ground
  | sequence, .intermediate | sequenceIntermediate, .intermediate => sequenceIntermediate
  | sequence, .parameter => sequence
  | sequence, .final | sequenceIntermediate, _ => ground
  | device, .intermediate | deviceParameter, .intermediate | deviceIntermediate, .intermediate =>
    deviceIntermediate
  | device, .parameter | deviceParameter, .parameter => deviceParameter
  | device, .final | deviceParameter, .final | deviceIntermediate, _ => deviceText

/-- Whether a byte is shown. -/
def shows (s : State) (b : UInt8) : Bool := s = ground && 0x20 ≤ b && b ≤ 0x7e

end State

end WasmCore.Terminal
