import Mx6xBsp.Flash.Program

/-!
# An AMD chip

The commands of the AMD set that program a word, through unlock bypass or not, or a write
buffer full of words. The devices of a bus get the same commands, so they are one chip here
that programs words as wide as the bus.
-/

namespace Mx6xBsp.Flash.Amd

/-! ## The chip -/

/-- Where a device is in the sequence of its commands: in the array, behind unlock cycles, before a
word to program, in unlock bypass, or loading its write buffer -/
inductive Mode
  | read
  | unlocking
  | unlocked
  | program
  | bypass
  | bypassProgram
  | bypassReset
  | count
  | loading (words : Nat)
  | full
  deriving DecidableEq

def AMD_UNLOCK_CMD1 : Nat := 0xAA
def AMD_UNLOCK_CMD2 : Nat := 0x55
def AMD_PROGRAM : Nat := 0xA0
def AMD_UNLOCK_BYPASS : Nat := 0x20
def AMD_BYPASS_RESET1 : Nat := 0x90
def AMD_BYPASS_RESET2 : Nat := 0x00
def AMD_READ_MODE : Nat := 0xF0
def AMD_WRITE_BUFFER : Nat := 0x25
def AMD_BUFFER_CONFIRM : Nat := 0x29

/-- What a chip holds, its mode and its write buffer, how often it has been programmed, and the
addresses of each buffered program -/
structure Chip where
  flash : Contents
  mode : Mode
  buffer : List (Nat × BitVec 64)
  programs : Nat
  buffered : List (List Nat)

namespace Chip

/-- A chip in read mode -/
def array (flash : Contents) : Chip := ⟨flash, .read, [], 0, []⟩

/-- The end of a buffered program -/
def programBuffer (width : Nat) (chip : Chip) : Chip :=
  { flash := chip.buffer.foldl (fun flash word => flash.program width word) chip.flash
    mode := .read
    buffer := []
    programs := chip.programs + 1
    buffered := chip.buffered ++ [chip.buffer.map Prod.fst] }

/-- `send_command`, with the code that each device gets -/
def sendCommand (width : Nat) (chip : Chip) (code : Nat) : Chip :=
  match chip.mode with
  | .read => { chip with mode := if code = AMD_UNLOCK_CMD1 then .unlocking else .read }
  | .unlocking => { chip with mode := if code = AMD_UNLOCK_CMD2 then .unlocked else .read }
  | .unlocked =>
    if code = AMD_WRITE_BUFFER then { chip with mode := .count, buffer := [] }
    else if code = AMD_PROGRAM then { chip with mode := .program }
    else if code = AMD_UNLOCK_BYPASS then { chip with mode := .bypass }
    else { chip with mode := .read }
  | .bypass =>
    if code = AMD_PROGRAM then { chip with mode := .bypassProgram }
    else if code = AMD_BYPASS_RESET1 then { chip with mode := .bypassReset }
    else chip
  | .bypassReset => { chip with mode := if code = AMD_BYPASS_RESET2 then .read else .bypass }
  | .count => { chip with mode := .loading (code + 1) }
  | .full =>
    if code = AMD_BUFFER_CONFIRM then chip.programBuffer width else { chip with mode := .read }
  | .program | .bypassProgram | .loading _ => { chip with mode := .read }

def writeValue (width : Nat) (chip : Chip) (word : Nat × BitVec 64) : Chip :=
  match chip.mode with
  | .program =>
    { chip with
      flash := chip.flash.program width word, mode := .read, programs := chip.programs + 1 }
  | .bypassProgram =>
    { chip with
      flash := chip.flash.program width word, mode := .bypass, programs := chip.programs + 1 }
  | .loading (words + 1) =>
    { chip with
      buffer := chip.buffer ++ [word], mode := if words = 0 then .full else .loading words }
  | _ => { chip with mode := .read }

/-- Command by command -/
def send (width : Nat) (chip : Chip) (codes : List Nat) : Chip :=
  codes.foldl (sendCommand width) chip

end Chip

/-! ## Command sequences -/

namespace Chip

variable {chip : Chip} {width : Nat}

theorem send_writeBuffer (mode : chip.mode = .read) :
    chip.send width [AMD_UNLOCK_CMD1, AMD_UNLOCK_CMD2, AMD_WRITE_BUFFER] =
      { chip with mode := .count, buffer := [] } := by
  obtain ⟨flash, _, buffer, programs, buffered⟩ := chip
  cases mode
  rfl

theorem send_count (mode : chip.mode = .count) (code : Nat) :
    chip.send width [code] = { chip with mode := .loading (code + 1) } := by
  obtain ⟨flash, _, buffer, programs, buffered⟩ := chip
  cases mode
  rfl

theorem send_confirm (mode : chip.mode = .full) :
    chip.send width [AMD_BUFFER_CONFIRM] = chip.programBuffer width := by
  obtain ⟨flash, _, buffer, programs, buffered⟩ := chip
  cases mode
  rfl

theorem send_program (mode : chip.mode = .read) :
    chip.send width [AMD_UNLOCK_CMD1, AMD_UNLOCK_CMD2, AMD_PROGRAM] =
      { chip with mode := .program } := by
  obtain ⟨flash, _, buffer, programs, buffered⟩ := chip
  cases mode
  rfl

theorem send_bypass (mode : chip.mode = .read) :
    chip.send width [AMD_UNLOCK_CMD1, AMD_UNLOCK_CMD2, AMD_UNLOCK_BYPASS] =
      { chip with mode := .bypass } := by
  obtain ⟨flash, _, buffer, programs, buffered⟩ := chip
  cases mode
  rfl

theorem send_bypassProgram (mode : chip.mode = .bypass) :
    chip.send width [AMD_PROGRAM] = { chip with mode := .bypassProgram } := by
  obtain ⟨flash, _, buffer, programs, buffered⟩ := chip
  cases mode
  rfl

theorem send_bypassReset (mode : chip.mode = .bypass) :
    chip.send width [AMD_BYPASS_RESET1, AMD_BYPASS_RESET2] = { chip with mode := .read } := by
  obtain ⟨flash, _, buffer, programs, buffered⟩ := chip
  cases mode
  rfl

theorem writeValue_eq (chip : Chip) (unlock : Bool) (word : Nat × BitVec 64) :
    ({ chip with mode := if unlock = true then .bypassProgram else .program } : Chip).writeValue
        width word =
      { chip with
        flash := chip.flash.program width word
        mode := if unlock = true then .bypass else .read
        programs := chip.programs + 1 } := by
  cases unlock with
  | true => rfl
  | false => rfl

theorem writeValues_eq {words : List (Nat × BitVec 64)} (some_ : words ≠ [])
    (mode : chip.mode = .loading words.length) :
    words.foldl (writeValue width) chip =
      { chip with mode := .full, buffer := chip.buffer ++ words } := by
  induction words generalizing chip with
  | nil => exact absurd rfl some_
  | cons word words ih =>
    have first : chip.writeValue width word =
        { chip with
          buffer := chip.buffer ++ [word]
          mode := if words.length = 0 then .full else .loading words.length } := by
      unfold writeValue
      rw [mode]
      rfl
    rw [List.foldl_cons, first]
    cases words with
    | nil => rfl
    | cons word' words =>
      rw [ih (List.cons_ne_nil _ _) rfl]
      dsimp only
      rw [List.append_assoc]
      rfl

end Chip

end Mx6xBsp.Flash.Amd
