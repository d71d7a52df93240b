import Anylinuxfs.Text

/-!
# Lines of the console

`PassthroughBufReader` (`utils.rs`): the reader of the guest's console. It returns lines, and it prints what it reads as it
arrives, except for the lines with messages of `vmproxy`. The inner reader is the list of its reads; a read without bytes is the
end of the stream, and so is the end of the list.
-/

namespace Anylinuxfs

/-- `b'\n'`. -/
def newline : UInt8 := 0x0a

/-- `str::from_utf8`. -/
def fromUtf8 (b : Bytes) : Option (List Char) := b.toByteArray.utf8Decode?.map Array.toList

/-- `log::Prefix`. -/
inductive Prefix where
  | host | guestLinux | guestBsd
  deriving DecidableEq, Repr

/-- `HOST_PREFIX`, `GUEST_LINUX_PREFIX`, `GUEST_BSD_PREFIX` and `EMPTY_PREFIX`. -/
def prefixText : Option Prefix → List Char
  | some .host => "macOS: ".toList
  | some .guestLinux => "Linux: ".toList
  | some .guestBsd => "  BSD: ".toList
  | none => []

/-- What is printed: a text by `prefix_print!`, or the carriage return after a line. -/
inductive Printed where
  | text (guestPrefix : Option Prefix) (s : List Char)
  | carriageReturn
  deriving DecidableEq, Repr

/-- What is on the console; `enabled` is `CONSOLE_LOG_ENABLED`. -/
def Printed.console (enabled : Bool) : Printed → List Char
  | .text guestPrefix s => if enabled then prefixText guestPrefix ++ s else []
  | .carriageReturn => ['\r']

/-- `<anylinuxfs-`. -/
def controlMarker : List Char := "<anylinuxfs-".toList

/-- What the reader remembers of the current line. -/
structure LineState where
  suppressCurrentLine : Bool := false
  pendingOutput : List Char := []
  firstChunk : Bool := true
  deriving DecidableEq, Repr

/-- `PassthroughBufReader`: `buffer` is what is unread of it. -/
structure LineReader where
  reads : List Bytes
  buffer : Bytes := []
  state : LineState := {}
  guestPrefix : Prefix

/-- What `read_line` returns: the line and the number of its bytes, or an error; and what it prints. -/
structure ReadCall where
  result : Option (List Char × Nat)
  printed : List Printed
  deriving DecidableEq, Repr

section

variable (guestPrefix : Prefix)

/-- `select_prefix`. -/
def selectPrefix (firstChunk : Bool) : Option Prefix := if firstChunk then some guestPrefix else none

/-- The text that was held back is printed. -/
def LineState.release (st : LineState) : LineState × List Printed :=
  if st.pendingOutput = [] then (st, [])
  else ({ st with firstChunk := false, pendingOutput := [] }, [.text (selectPrefix guestPrefix st.firstChunk) st.pendingOutput])

/-- What becomes of a chunk of a line: it is dropped, held back, or printed. -/
def LineState.absorb (st : LineState) (line chunk : List Char) : LineState × List Printed :=
  if st.suppressCurrentLine then (st, [])
  else if controlMarker.isPrefixOf line then ({ st with suppressCurrentLine := true, pendingOutput := [] }, [])
  else if line.isPrefixOf controlMarker then ({ st with pendingOutput := st.pendingOutput ++ chunk }, [])
  else
    let (st, released) := st.release guestPrefix
    ({ st with firstChunk := false }, released ++ [.text (selectPrefix guestPrefix st.firstChunk) chunk])

/-- The end of a line: what is still held back is printed, unless the line is suppressed. -/
def LineState.endLine (st : LineState) : List Printed :=
  if st.suppressCurrentLine then [] else (st.release guestPrefix).2

/-- The part of the buffer up to the first newline. -/
def firstPiece (buffer : Bytes) : Bytes :=
  if newline ∈ buffer then buffer.takeWhile (· ≠ newline) ++ [newline] else buffer

/-- The loop of `read_line`, from a read on. -/
def readLineLoop (st : LineState) (line : List Char) (totalRead : Nat) (printed : List Printed) :
    List Bytes → ReadCall × LineReader
  | [] => (⟨some (line, totalRead), printed ++ (st.release guestPrefix).2⟩, ⟨[], [], (st.release guestPrefix).1, guestPrefix⟩)
  | [] :: reads =>
    (⟨some (line, totalRead), printed ++ (st.release guestPrefix).2⟩, ⟨reads, [], (st.release guestPrefix).1, guestPrefix⟩)
  | buffer :: reads =>
    match fromUtf8 (firstPiece buffer) with
    | none => (⟨none, printed⟩, ⟨reads, buffer, st, guestPrefix⟩)
    | some chunk =>
      let line := line ++ chunk
      let totalRead := totalRead + (firstPiece buffer).length
      let (st, out) := st.absorb guestPrefix line chunk
      if newline ∈ buffer then
        (⟨some (line, totalRead), printed ++ out ++ st.endLine guestPrefix ++ [.carriageReturn]⟩,
          ⟨reads, buffer.drop (firstPiece buffer).length, {}, guestPrefix⟩)
      else readLineLoop st line totalRead (printed ++ out) reads

end

/-- `PassthroughBufReader::new`. -/
def LineReader.new (reads : List Bytes) (guestPrefix : Prefix) : LineReader := { reads, guestPrefix }

/-- The bytes that were read and are unread in the buffer, and the reads to come. -/
def LineReader.input (r : LineReader) : List Bytes := if r.buffer = [] then r.reads else r.buffer :: r.reads

/-- `PassthroughBufReader::read_line`. -/
def LineReader.readLine (r : LineReader) : ReadCall × LineReader := readLineLoop r.guestPrefix r.state [] 0 [] r.input

/-- Successive calls of `read_line`. -/
def LineReader.calls : Nat → LineReader → List ReadCall
  | 0, _ => []
  | n + 1, r => r.readLine.1 :: LineReader.calls n r.readLine.2

/-! ## What is asked of the lines -/

/-- The lines of a text, each with its newline; the last one may have none. -/
def linesOf : List Char → List (List Char)
  | [] => []
  | c :: s =>
    if c = '\n' then [c] :: linesOf s
    else
      match linesOf s with
      | [] => [[c]]
      | line :: lines => (c :: line) :: lines

/-- What the call with the number `i` should return: a line, or nothing after the end of the stream. -/
def expectedLine (s : List Char) (i : Nat) : List Char := (linesOf s).getD i []

/-- What should be on the console for a line: nothing for a message, else the prefix and the line; and a carriage return after a
newline. -/
def lineConsole (enabled : Bool) (guestPrefix : Prefix) (line : List Char) : List Char :=
  (if enabled = false ∨ line = [] ∨ controlMarker.isPrefixOf line then [] else prefixText (some guestPrefix) ++ line) ++
    if '\n' ∈ line then ['\r'] else []

/-- Successive calls return the lines of the stream, and no errors. -/
def LineReader.ReturnsLines (r : LineReader) (s : List Char) : Prop :=
  ∀ n, (r.calls n).map ReadCall.result =
    (List.range n).map fun i => some (expectedLine s i, (utf8 (expectedLine s i)).length)

/-- The read ends between two characters. -/
def IsText (b : Bytes) : Prop := ∃ s, b = utf8 s

end Anylinuxfs
