import Ladybug.Base.Markup

/-!
# The scan of a JSON file (`json/src/functions/table_functions/json_scan.cpp`)

Threads read the file buffer by buffer.  A buffer is read by the thread that asked for it; where the
records are lines, the line that its start cuts is put together from the end of the buffer before it,
so that such a buffer has two readers and is kept until both are done.  A step of a thread is what it
does between two accesses to what the threads share.
-/

namespace Ladybug.JsonScan

open Markup

inductive JsonScanFormat where
  | newlineDelimited
  | unstructured
  | array
  deriving DecidableEq

def paddingSize : Nat := 4

def padding : Bytes := List.replicate paddingSize 0

/-- The parser, which stops when it is done and reads in place.  It is given the text and the memory
after the text: it may look at the padding there. -/
structure Parser (Doc : Type) where
  /-- The document and the number of bytes that it takes. -/
  read : Bytes → Bytes → Except String (Doc × Nat)
  /-- What the text is afterwards. -/
  inPlace : Bytes → Bytes → Bytes

structure Params where
  /-- `SCAN_BUFFER_CAPACITY`. -/
  capacity : Nat
  /-- `DEFAULT_VECTOR_CAPACITY`. -/
  vectorCapacity : Nat
  format : JsonScanFormat
  fileName : String
  file : Bytes
  room : paddingSize < capacity
  outputs : 0 < vectorCapacity

def newline : UInt8 := '\n'.toUInt8

def quote : UInt8 := '"'.toUInt8

def backslash : UInt8 := '\\'.toUInt8

def comma : UInt8 := ','.toUInt8

def openBracket : UInt8 := '['.toUInt8

def closeBracket : UInt8 := ']'.toUInt8

def openBrace : UInt8 := '\x7b'.toUInt8

def closeBrace : UInt8 := '\x7d'.toUInt8

/-- `StringUtils::isSpace`. -/
def isSpace (c : UInt8) : Bool := c == ' '.toUInt8 || (9 ≤ c && c ≤ 13)

def skipWhitespace (text : Bytes) : Nat := (text.takeWhile isSpace).length

/-- Where the loops of `nextJsonDefault` stand. -/
inductive Mode where
  | outside
  | inString
  | escaped
  deriving DecidableEq

def isOpen (c : UInt8) : Bool := c == openBrace || c == openBracket

def isClose (c : UInt8) : Bool := c == closeBrace || c == closeBracket

/-- The number of bytes up to the place where the loop ends.  Brackets are counted, whatever their
kind. -/
def nextJsonDefault : Mode → (parents : Nat) → Bytes → Nat
  | _, _, [] => 0
  | .outside, parents, c :: rest =>
    if isOpen c then 1 + nextJsonDefault .outside (parents + 1) rest
    else if isClose c then
      if parents = 1 then 1 else 1 + nextJsonDefault .outside (parents - 1) rest
    else if c = quote then 1 + nextJsonDefault .inString parents rest
    else 1 + nextJsonDefault .outside parents rest
  | .inString, parents, c :: rest =>
    if c = quote then
      if parents = 0 then 1 else 1 + nextJsonDefault .outside parents rest
    else if c = backslash then 1 + nextJsonDefault .escaped parents rest
    else 1 + nextJsonDefault .inString parents rest
  | .escaped, parents, _ :: rest => 1 + nextJsonDefault .inString parents rest

def isSeparator (c : UInt8) : Bool := c == comma || c == closeBracket

/-- The distance to the end of the value; `none` is the null pointer, for an end that is the end of
the text. -/
def nextJson (text : Bytes) : Option Nat :=
  let size := match text with
    | c :: _ =>
      if isOpen c || c == quote then nextJsonDefault .outside 0 text
      else text.findIdx isSeparator
    | [] => 0
  if size = text.length then none else some size

def nextNewLine (text : Bytes) : Option Nat := text.findIdx? (· == newline)

/-- The loop that goes back from `ptr`; the first byte is not looked at. -/
def previousNewLineFrom (data : Bytes) : (ptr : Nat) → Nat
  | 0 => 0
  | ptr + 1 => if data[ptr + 1]? = some newline then ptr + 1 else previousNewLineFrom data ptr

def previousNewLine (data : Bytes) : Nat := previousNewLineFrom data (data.length - 1)

section

variable {Doc : Type}

/-- `throwParseError`. -/
def malformed (msg : String) : String := "Malformed JSON: " ++ msg ++ ". "

def parseJson (parser : Parser Doc) (text after : Bytes) (size : Nat) : Except String Doc :=
  match parser.read text after with
  | .error msg => .error (malformed msg)
  | .ok (doc, numBytesRead) =>
    if size < numBytesRead then .error (malformed "unexpected end of data")
    -- up to the boundary there is only white space
    else if (((parser.inPlace text after).take size).drop numBytesRead).all isSpace then .ok doc
    else .error (malformed "unexpected content after document")

inductive Round (Doc : Type) where
  /-- The loop is left; the text that is kept for the next buffer. -/
  | leave (bufferOffset : Nat) (remainder : Option Bytes)
  | parsed (doc : Doc) (data : Bytes) (bufferOffset : Nat)
  | errors (msgs : List String)

def endOfJson (format : JsonScanFormat) (text : Bytes) : Option Nat :=
  match format with
  | .newlineDelimited => nextNewLine text
  | _ => nextJson text

/-- After a value of an array there is a comma or the closing bracket. -/
def afterValue (format : JsonScanFormat) (data : Bytes) (bufferOffset : Nat) : Except String Nat :=
  match format with
  | .array =>
    let bufferOffset := bufferOffset + skipWhitespace (data.drop bufferOffset)
    match data[bufferOffset]? with
    | some c =>
      if isSeparator c then .ok (bufferOffset + 1)
      else .error (malformed "unexpected character")
    -- the padding
    | none => .error (malformed "unexpected character")
  | _ => .ok bufferOffset

def messages {α : Type} : Except String α → List String
  | .ok _ => []
  | .error msg => [msg]

def parseRound (parser : Parser Doc) (format : JsonScanFormat) (isLast : Bool) (data : Bytes)
    (bufferOffset : Nat) : Round Doc :=
  let bufferOffset := bufferOffset + skipWhitespace (data.drop bufferOffset)
  let text := data.drop bufferOffset
  if text.isEmpty then .leave bufferOffset none
  else
    let jsonEnd := endOfJson format text
    if jsonEnd = none ∧ isLast = false then
      .leave data.length (if format = .newlineDelimited then none else some text)
    else
      let jsonSize := jsonEnd.getD text.length
      let result := parseJson parser text padding jsonSize
      let data := data.take bufferOffset ++ parser.inPlace text padding
      let next := afterValue format data (bufferOffset + jsonSize)
      match result, next with
      | .ok doc, .ok bufferOffset =>
        .parsed doc data (bufferOffset + skipWhitespace (data.drop bufferOffset))
      | result, next => .errors (messages result ++ messages next)

end

structure JsonScanBufferHandle where
  data : Bytes
  numReaders : Nat

structure BufferedJsonReader where
  readPosition : Nat
  lastReadRequested : Bool
  bufferIdx : Nat
  bufferMap : Nat → Option JsonScanBufferHandle
  errors : List String

def setBuffer (bufferMap : Nat → Option JsonScanBufferHandle) (idx : Nat)
    (handle : Option JsonScanBufferHandle) : Nat → Option JsonScanBufferHandle :=
  fun k => if k = idx then handle else bufferMap k

def BufferedJsonReader.insertBuffer (reader : BufferedJsonReader) (idx : Nat)
    (handle : JsonScanBufferHandle) : BufferedJsonReader :=
  { reader with bufferMap := setBuffer reader.bufferMap idx (some handle) }

/-- `--numReaders`, and `removeBuffer` where no reader is left: the threads do not look for such a
buffer. -/
def BufferedJsonReader.release (reader : BufferedJsonReader) (idx : Nat) : BufferedJsonReader :=
  match reader.bufferMap idx with
  | none => reader
  | some handle =>
    let left := if handle.numReaders = 1 then none
      else some { handle with numReaders := handle.numReaders - 1 }
    { reader with bufferMap := setBuffer reader.bufferMap idx left }

inductive Stage where
  /-- The buffer is read to its end: `readNextBuffer` is next. -/
  | idle
  /-- `getPositionAndSize` has given out a part of the file. -/
  | reserved (idx position size : Nat)
  /-- `reconstructFirstObject` waits for the buffer before. -/
  | first (idx : Nat)
  /-- The end of the buffer before is copied. -/
  | copied (idx firstPartSize : Nat)
  | line (idx firstPartSize : Nat)
  /-- `parseNextChunk`. -/
  | chunk (idx : Nat)
  | finished
  | failed (reason : Stop)
  deriving DecidableEq

structure JSONScanLocalState (Doc : Type) where
  stage : Stage
  current : Option Nat
  bufferOffset : Nat
  isLast : Bool
  prevBufferRemainder : Nat
  reconstructBuffer : Bytes
  /-- `docs`, of which `numValuesToOutput` count. -/
  docs : List Doc
  /-- What the calls of `readNext` have returned. -/
  output : List Doc

/-- `memcpy` into a buffer; past its end it is undefined. -/
def overwrite (memory : Bytes) (offset : Nat) (bytes : Bytes) : Option Bytes :=
  if offset + bytes.length ≤ memory.length then
    some (memory.take offset ++ bytes ++ memory.drop (offset + bytes.length))
  else none

def errorAt (c : UInt8) : String := String.singleton (Char.ofNat c.toNat)

def skipOverArrayStart (fileName : String) (data : Bytes) : Except Stop Nat :=
  let bufferOffset := skipWhitespace data
  match data[bufferOffset]? with
  -- an empty file
  | none => .ok bufferOffset
  | some c =>
    if c ≠ openBracket then
      .error (.error ("Expected top-level JSON array with format='array', but first character is '"
        ++ errorAt c ++ "' in file \"" ++ fileName
        ++ "\".\nTry setting format='auto' or format='newline_delimited'."))
    else
      let bufferOffset := bufferOffset + 1 + skipWhitespace (data.drop (bufferOffset + 1))
      match data[bufferOffset]? with
      | none =>
        .error (.error ("Missing closing brace ']' in JSON array with format='array' in file \""
          ++ fileName ++ "\""))
      | some c =>
        if c = closeBracket then
          let bufferOffset := bufferOffset + 1 + skipWhitespace (data.drop (bufferOffset + 1))
          if bufferOffset ≠ data.length then
            .error (.error ("Empty array with trailing data when parsing JSON array with "
              ++ "format='array' in file \"" ++ fileName ++ "\""))
          else .ok bufferOffset
        else .ok bufferOffset

section

variable {Doc : Type}

/-- The part of the file that a thread is given under the lock. -/
def reserve (params : Params) (reader : BufferedJsonReader) (t : JSONScanLocalState Doc) :
    BufferedJsonReader × JSONScanLocalState Doc :=
  if reader.lastReadRequested then (reader, { t with stage := .finished, isLast := false })
  else
    let requestSize := params.capacity - t.prevBufferRemainder - paddingSize
    let size := min requestSize (params.file.length - reader.readPosition)
    ({ reader with
        readPosition := reader.readPosition + size
        lastReadRequested := size == 0
        bufferIdx := reader.bufferIdx + 1 },
      { t with stage := .reserved reader.bufferIdx reader.readPosition size, isLast := size == 0 })

/-- The file is read behind the remainder, and the buffer becomes visible. -/
def insertRead (params : Params) (reader : BufferedJsonReader) (t : JSONScanLocalState Doc)
    (idx position size : Nat) : BufferedJsonReader × JSONScanLocalState Doc :=
  let data := t.reconstructBuffer.take t.prevBufferRemainder
    ++ (params.file.drop position).take size
  let start := if !t.isLast && idx == 0 && params.format == .array then
      skipOverArrayStart params.fileName data
    else .ok 0
  match start with
  | .error reason => (reader, { t with stage := .failed reason })
  | .ok bufferOffset =>
    let numReaders := if params.format = .newlineDelimited ∧ t.isLast = false then 2 else 1
    (reader.insertBuffer idx ⟨data, numReaders⟩, { t with
        stage := if idx ≠ 0 ∧ params.format = .newlineDelimited then .first idx else .chunk idx
        current := some idx
        bufferOffset := bufferOffset
        prevBufferRemainder := 0 })

def parseLine (parser : Parser Doc) (reader : BufferedJsonReader) (t : JSONScanLocalState Doc)
    (idx firstPartSize : Nat) (data : Bytes) : BufferedJsonReader × JSONScanLocalState Doc :=
  let parse (memory : Bytes) (lineSize bufferOffset : Nat) :=
    let text := memory.take lineSize
    let after := memory.drop lineSize
    let t := { t with
      stage := .chunk idx
      bufferOffset := bufferOffset
      reconstructBuffer := parser.inPlace text after ++ after }
    match parseJson parser text after lineSize with
    | .ok doc => (reader, { t with docs := t.docs ++ [doc] })
    | .error msg => ({ reader with errors := reader.errors ++ [msg] }, t)
  if firstPartSize = 1 then (reader, { t with stage := .chunk idx })
  else if data.isEmpty then parse t.reconstructBuffer firstPartSize t.bufferOffset
  else
    match nextNewLine data with
    | none =>
      (reader, { t with
        stage := .failed (.error "Json object exceeds the maximum object size.") })
    | some lineEnd =>
      let secondPartSize := lineEnd + 1
      let lineSize := firstPartSize + secondPartSize
      match (overwrite t.reconstructBuffer firstPartSize (data.take secondPartSize)).bind
          fun memory => overwrite memory lineSize padding with
      | none => (reader, { t with stage := .failed .outOfRange })
      | some memory => parse memory lineSize (t.bufferOffset + secondPartSize)

/-- `readNext` returns the documents, and `tableFunc` outputs them unless an error is known. -/
def returned (reader : BufferedJsonReader) (t : JSONScanLocalState Doc) (stage : Stage) :
    JSONScanLocalState Doc :=
  if reader.errors.isEmpty then { t with stage := stage, output := t.output ++ t.docs, docs := [] }
  else { t with stage := .finished, docs := [] }

def parseNextChunk (params : Params) (parser : Parser Doc) (reader : BufferedJsonReader)
    (t : JSONScanLocalState Doc) (idx : Nat) (handle : JsonScanBufferHandle) :
    BufferedJsonReader × JSONScanLocalState Doc :=
  if params.vectorCapacity ≤ t.docs.length then
    (reader, returned reader t (if t.bufferOffset = handle.data.length then .idle else .chunk idx))
  else
    match parseRound parser params.format t.isLast handle.data t.bufferOffset with
    | .leave bufferOffset remainder =>
      let t := { t with
        stage := .idle
        bufferOffset := bufferOffset
        prevBufferRemainder := (remainder.getD []).length
        reconstructBuffer :=
          (overwrite t.reconstructBuffer 0 (remainder.getD [])).getD t.reconstructBuffer }
      (reader, if t.docs.isEmpty then t else returned reader t .idle)
    | .parsed doc data bufferOffset =>
      (reader.insertBuffer idx { handle with data := data },
        { t with bufferOffset := bufferOffset, docs := t.docs ++ [doc] })
    -- the documents of this call are dropped, and the scan of this thread ends
    | .errors msgs =>
      ({ reader with errors := reader.errors ++ msgs }, { t with stage := .finished, docs := [] })

/-- A step of a thread; it waits where there is none. -/
def JSONScanLocalState.step (params : Params) (parser : Parser Doc) (reader : BufferedJsonReader)
    (t : JSONScanLocalState Doc) : Option (BufferedJsonReader × JSONScanLocalState Doc) :=
  match t.stage with
  | .idle =>
    match t.current with
    | some idx => some (reader.release idx, { t with current := none })
    | none => some (reserve params reader t)
  | .reserved idx position size => some (insertRead params reader t idx position size)
  | .first idx =>
    -- `getBuffer` is called until the buffer is there
    (reader.bufferMap (idx - 1)).map fun handle =>
      let firstPart := handle.data.drop (previousNewLine handle.data)
      match overwrite t.reconstructBuffer 0 firstPart with
      | none => (reader, { t with stage := .failed .outOfRange })
      | some memory =>
        (reader, { t with stage := .copied idx firstPart.length, reconstructBuffer := memory })
  | .copied idx firstPartSize =>
    some (reader.release (idx - 1), { t with stage := .line idx firstPartSize })
  | .line idx firstPartSize =>
    (reader.bufferMap idx).map fun handle => parseLine parser reader t idx firstPartSize handle.data
  | .chunk idx =>
    (reader.bufferMap idx).map fun handle => parseNextChunk params parser reader t idx handle
  | .finished => none
  | .failed _ => none

end

structure Scan (Doc : Type) where
  reader : BufferedJsonReader
  threads : List (JSONScanLocalState Doc)

def BufferedJsonReader.opened : BufferedJsonReader where
  readPosition := 0
  lastReadRequested := false
  bufferIdx := 0
  bufferMap := fun _ => none
  errors := []

def JSONScanLocalState.created {Doc : Type} (memory : Bytes) : JSONScanLocalState Doc where
  stage := .idle
  current := none
  bufferOffset := 0
  isLast := false
  prevBufferRemainder := 0
  reconstructBuffer := memory
  docs := []
  output := []

def Scan.started {Doc : Type} (memories : List Bytes) : Scan Doc where
  reader := .opened
  threads := memories.map .created

/-- The thread with this number takes a step. -/
def Scan.step {Doc : Type} (params : Params) (parser : Parser Doc) (scan : Scan Doc) (i : Nat) :
    Option (Scan Doc) := do
  let t ← scan.threads[i]?
  let next ← t.step params parser scan.reader
  return ⟨next.1, scan.threads.set i next.2⟩

end Ladybug.JsonScan
