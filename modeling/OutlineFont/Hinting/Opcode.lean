import OutlineFont.Hinting.Rounding

/-!
# The instruction set

An opcode is one byte.  The table in this module gives every byte its
mnemonic, the variant that its low bits select, and its action: what the
machine does for it.  Actions group the opcodes, so that statements about the
machine need one case for a group.
-/

namespace OutlineFont.Hinting

inductive Axis where
  | x
  | y
  deriving DecidableEq, Repr, Inhabited

/-- The letter of an axis. -/
def Axis.name : Axis → String
  | .x => "X"
  | .y => "Y"

/-- Which of the two vectors of the graphics state an instruction sets. -/
inductive VectorChoice where
  | both
  | projection
  | freedom
  deriving DecidableEq, Repr, Inhabited

/-- The size of the numbers that a push instruction carries. -/
inductive PushWidth where
  | byte
  | word
  deriving DecidableEq, Repr, Inhabited

/-- The number of bytes of one pushed number. -/
def PushWidth.size : PushWidth → Nat
  | .byte => 1
  | .word => 2

inductive Comparison where
  | less
  | lessEqual
  | greater
  | greaterEqual
  | equal
  | notEqual
  | both
  | either
  deriving DecidableEq, Repr, Inhabited

/-- Whether two numbers pass a test; a number other than zero counts as true. -/
def Comparison.holds (test : Comparison) (a b : Int32) : Bool :=
  match test with
  | .less => a < b
  | .lessEqual => a ≤ b
  | .greater => b < a
  | .greaterEqual => b ≤ a
  | .equal => a == b
  | .notEqual => a != b
  | .both => a != 0 && b != 0
  | .either => a != 0 || b != 0

inductive Arithmetic where
  | add
  | subtract
  | divide
  | multiply
  | maximum
  | minimum
  deriving DecidableEq, Repr, Inhabited

inductive DistanceMap where
  | magnitude
  | negate
  | floor
  | ceiling
  | round
  deriving DecidableEq, Repr, Inhabited

/-- What the machine does for an opcode. -/
inductive Action where
  /-- Point vectors along an axis. -/
  | setVectors (choice : VectorChoice) (axis : Axis)
  /-- Pop a reference point. -/
  | setReference (index : Fin 3)
  /-- Pop a zone for one pointer. -/
  | setZone (index : Fin 3)
  /-- Pop a zone for all pointers. -/
  | setZones
  /-- Pop the repeat count of point instructions. -/
  | setLoop
  /-- Change the round state. -/
  | setRounding (state : Rounding)
  /-- Pop the minimum distance. -/
  | setMinimumDistance
  /-- Pop the cut-in of control values. -/
  | setControlCutIn
  /-- Pop the cut-in of the single width. -/
  | setWidthCutIn
  /-- Pop the single width, in font units. -/
  | setWidth
  /-- Turn sign matching of control values on or off. -/
  | setAutoFlip (on : Bool)
  /-- Pop the base of delta exceptions. -/
  | setDeltaBase
  /-- Pop the step exponent of delta exceptions. -/
  | setDeltaShift
  /-- Pop when to fill dropouts. -/
  | setScanControl
  /-- Pop how to fill dropouts. -/
  | setScanType
  /-- Pop a selector and a value for the instruction control. -/
  | setInstructionControl
  /-- Replace a request by what it asks of the engine. -/
  | getInformation
  /-- Copy the top. -/
  | duplicate
  /-- Drop the top. -/
  | discard
  /-- Empty the stack. -/
  | clear
  /-- Swap the two topmost elements. -/
  | swap
  /-- Push the number of elements. -/
  | depth
  /-- Pop a position and copy the element there. -/
  | copyIndexed
  /-- Pop a position and move the element there to the top. -/
  | moveIndexed
  /-- Move the third element to the top. -/
  | roll
  /-- Push numbers that follow the opcode; without a count the next byte is the count. -/
  | push (width : PushWidth) (count : Option Nat)
  /-- Pop a value and a storage index. -/
  | writeStorage
  /-- Replace a storage index by its value. -/
  | readStorage
  /-- Pop a distance and a control value index. -/
  | writeControl
  /-- Pop a length in font units and a control value index. -/
  | writeScaledControl
  /-- Replace a control value index by its distance. -/
  | readControl
  /-- Push the number of pixels per em. -/
  | pixelsPerEm
  /-- Replace two numbers by the outcome of a test. -/
  | compare (test : Comparison)
  /-- Replace the top by its logical negation. -/
  | negateLogical
  /-- Replace a distance by whether its rounded pixel count is odd, or even. -/
  | parity (odd : Bool)
  /-- Replace two numbers by one. -/
  | combine (operation : Arithmetic)
  /-- Replace a distance by another. -/
  | mapDistance (operation : DistanceMap)
  /-- Need an element on the stack and leave it. -/
  | inspect
  /-- Pop a condition and enter a block, or skip to its other branch. -/
  | ifTrue
  /-- Skip to the end of a block. -/
  | elseBranch
  /-- Close a block. -/
  | endIf
  /-- Pop an offset and jump by it. -/
  | jump
  /-- Pop a condition and an offset and jump when the condition is as given. -/
  | jumpWhen (condition : Bool)
  /-- Pop a function index and bind the body that follows to it. -/
  | defineFunction
  /-- Open the definition of an instruction, which the engine does not support. -/
  | defineInstruction
  /-- Close a definition and return from a call. -/
  | endFunction
  /-- Pop a function index and run the function. -/
  | call
  /-- Pop a function index and a count and run the function that often. -/
  | loopCall
  /-- Pop pairs that adjust control values at single sizes. -/
  | deltaControl (bias : Nat)
  /-- Pop a control value index and a point. -/
  | moveToControl
  /-- Act on points or state that the engine does not model. -/
  | unsupported
  /-- Belong to no instruction. -/
  | unknown
  deriving DecidableEq, Repr, Inhabited

/-- What the low bits of an opcode select. -/
inductive Variant where
  | single
  | axis (axis : Axis)
  | bits (value : Nat)
  deriving DecidableEq, Repr, Inhabited

/-- What an opcode stands for. -/
structure OpcodeEntry where
  mnemonic : String
  variant : Variant
  action : Action
  deriving DecidableEq, Repr, Inhabited

namespace OpcodeEntry

/-- An instruction of one opcode. -/
def one (mnemonic : String) (action : Action) : List OpcodeEntry :=
  [⟨mnemonic, .single, action⟩]

/-- An instruction of two opcodes, the first for the vertical axis. -/
def axes (mnemonic : String) (choice : VectorChoice) : List OpcodeEntry :=
  [⟨mnemonic, .axis .y, .setVectors choice .y⟩, ⟨mnemonic, .axis .x, .setVectors choice .x⟩]

/-- An instruction of several opcodes with equal action. -/
def family (mnemonic : String) (count : Nat) (action : Action) : List OpcodeEntry :=
  (List.range count).map fun value => ⟨mnemonic, .bits value, action⟩

/-- A push instruction with its count in the opcode. -/
def pushes (mnemonic : String) (width : PushWidth) : List OpcodeEntry :=
  (List.range 8).map fun value => ⟨mnemonic, .bits value, .push width (some (value + 1))⟩

/-- Bytes that belong to no instruction. -/
def gap (count : Nat) : List OpcodeEntry :=
  List.replicate count ⟨"<unknown>", .single, .unknown⟩

/-- The entries of all bytes in ascending order, sixteen to a group. -/
def all : List OpcodeEntry :=
  List.flatten [
    -- 0x00
    axes "SVTCA" .both, axes "SPVTCA" .projection, axes "SFVTCA" .freedom,
    family "SPVTL" 2 .unsupported, family "SFVTL" 2 .unsupported, one "SPVFS" .unsupported,
    one "SFVFS" .unsupported, one "GPV" .unsupported, one "GFV" .unsupported,
    one "SFVTPV" .unsupported, one "ISECT" .unsupported,
    -- 0x10
    one "SRP0" (.setReference 0), one "SRP1" (.setReference 1), one "SRP2" (.setReference 2),
    one "SZP0" (.setZone 0), one "SZP1" (.setZone 1), one "SZP2" (.setZone 2),
    one "SZPS" .setZones, one "SLOOP" .setLoop, one "RTG" (.setRounding .grid),
    one "RTHG" (.setRounding .halfGrid), one "SMD" .setMinimumDistance, one "ELSE" .elseBranch,
    one "JMPR" .jump, one "SCVTCI" .setControlCutIn, one "SSWCI" .setWidthCutIn,
    one "SSW" .setWidth,
    -- 0x20
    one "DUP" .duplicate, one "POP" .discard, one "CLEAR" .clear, one "SWAP" .swap,
    one "DEPTH" .depth, one "CINDEX" .copyIndexed, one "MINDEX" .moveIndexed,
    one "ALIGNPTS" .unsupported, gap 1, one "UTP" .unsupported, one "LOOPCALL" .loopCall,
    one "CALL" .call, one "FDEF" .defineFunction, one "ENDF" .endFunction,
    family "MDAP" 2 .unsupported,
    -- 0x30
    family "IUP" 2 .unsupported, family "SHP" 2 .unsupported, family "SHC" 2 .unsupported,
    family "SHZ" 2 .unsupported, one "SHPIX" .unsupported, one "IP" .unsupported,
    family "MSIRP" 2 .unsupported, one "ALIGNRP" .unsupported,
    one "RTDG" (.setRounding .doubleGrid), family "MIAP" 2 .moveToControl,
    -- 0x40
    one "NPUSHB" (.push .byte none), one "NPUSHW" (.push .word none), one "WS" .writeStorage,
    one "RS" .readStorage, one "WCVTP" .writeControl, one "RCVT" .readControl,
    family "GC" 2 .unsupported, one "SCFS" .unsupported, (family "MD" 2 .unsupported).reverse,
    one "MPPEM" .pixelsPerEm, one "MPS" .unsupported, one "FLIPON" (.setAutoFlip true),
    one "FLIPOFF" (.setAutoFlip false), one "DEBUG" .discard,
    -- 0x50
    one "LT" (.compare .less), one "LTEQ" (.compare .lessEqual), one "GT" (.compare .greater),
    one "GTEQ" (.compare .greaterEqual), one "EQ" (.compare .equal),
    one "NEQ" (.compare .notEqual), one "ODD" (.parity true), one "EVEN" (.parity false),
    one "IF" .ifTrue, one "EIF" .endIf, one "AND" (.compare .both), one "OR" (.compare .either),
    one "NOT" .negateLogical, one "DELTAP1" .unsupported, one "SDB" .setDeltaBase,
    one "SDS" .setDeltaShift,
    -- 0x60
    one "ADD" (.combine .add), one "SUB" (.combine .subtract), one "DIV" (.combine .divide),
    one "MUL" (.combine .multiply), one "ABS" (.mapDistance .magnitude),
    one "NEG" (.mapDistance .negate), one "FLOOR" (.mapDistance .floor),
    one "CEILING" (.mapDistance .ceiling), family "ROUND" 4 (.mapDistance .round),
    family "NROUND" 4 .inspect,
    -- 0x70
    one "WCVTF" .writeScaledControl, one "DELTAP2" .unsupported, one "DELTAP3" .unsupported,
    one "DELTAC1" (.deltaControl 0), one "DELTAC2" (.deltaControl 16),
    one "DELTAC3" (.deltaControl 32), one "SROUND" .unsupported, one "S45ROUND" .unsupported,
    one "JROT" (.jumpWhen true), one "JROF" (.jumpWhen false), one "ROFF" (.setRounding .off),
    gap 1, one "RUTG" (.setRounding .upToGrid), one "RDTG" (.setRounding .downToGrid),
    one "SANGW" .unsupported, one "AA" .discard,
    -- 0x80
    one "FLIPPT" .unsupported, one "FLIPRGON" .unsupported, one "FLIPRGOFF" .unsupported, gap 2,
    one "SCANCTRL" .setScanControl, family "SDPVTL" 2 .unsupported,
    one "GETINFO" .getInformation, one "IDEF" .defineInstruction, one "ROLL" .roll,
    one "MAX" (.combine .maximum), one "MIN" (.combine .minimum), one "SCANTYPE" .setScanType,
    one "INSTCTRL" .setInstructionControl, gap 1,
    -- 0x90
    gap 16,
    -- 0xa0
    gap 16,
    -- 0xb0
    pushes "PUSHB" .byte, pushes "PUSHW" .word,
    -- 0xc0
    family "MDRP" 32 .unsupported,
    -- 0xe0
    family "MIRP" 32 .unsupported]

end OpcodeEntry

/-- The entries of all bytes, for look-up. -/
def opcodeTable : Array OpcodeEntry :=
  OpcodeEntry.all.toArray

theorem opcodeTable_size : opcodeTable.size = 256 := by
  decide +kernel

/-- The first byte of an instruction. -/
structure Opcode where
  byte : UInt8
  deriving DecidableEq, Repr, Inhabited

namespace Opcode

/-- What the table says of an opcode. -/
def entry (opcode : Opcode) : OpcodeEntry :=
  have _ : opcode.byte.toNat < opcodeTable.size := by
    rw [opcodeTable_size]
    exact opcode.byte.toNat_lt
  opcodeTable[opcode.byte.toNat]

def action (opcode : Opcode) : Action :=
  opcode.entry.action

def mnemonic (opcode : Opcode) : String :=
  opcode.entry.mnemonic

/-- The mnemonic with the variant; a byte of no instruction is given by its number. -/
def label (opcode : Opcode) : String :=
  match opcode.action, opcode.entry.variant with
  | .unknown, _ => s!"Unknown({opcode.byte.toNat})"
  | _, .single => opcode.mnemonic
  | _, .axis axis => s!"{opcode.mnemonic}({axis.name})"
  | _, .bits value => s!"{opcode.mnemonic}({value})"

/-- The number of data bytes after the opcode, unless the next byte gives it. -/
def inlineSize? (opcode : Opcode) : Option Nat :=
  match opcode.action with
  | .push width (some count) => some (count * width.size)
  | .push _ none => none
  | _ => some 0

end Opcode

end OutlineFont.Hinting
