import AIService.Basic
import Mathlib.Tactic.Linarith

/-!
# `image_resource`

The budget check that runs on the bytes of an image before a decoder sees them.  Every read
of the vector and every sum or difference of `size_t` is checked here, so that a read outside,
a wrapped position or an endless loop is a fault of its own and not a value.
-/

namespace AIService.Image

/-- What ends a function before it returns; only `error` is an exception of the sources. -/
inductive Fault
  | error (status : Nat) (message : Bytes)
  /-- A read at or beyond the end. -/
  | outOfBounds
  /-- A `size_t` operation left its range. -/
  | wrapped
  /-- A loop did not end within its fuel. -/
  | unfinished
deriving DecidableEq, Repr

/-- `INT_MAX`. -/
def intMax : Nat := 2147483647

/-- A positive `size_t`. -/
structure Size where
  val : Nat
  pos : 0 < val
  lt : val < sizeLimit

/-- `Policy`, as `GetPolicy` lets it be. -/
structure Policy where
  encoded : Size
  pixels : Size
  bgr : Size
  jobs : Size
  encoded_le : encoded.val ≤ intMax

/-! ## The configuration -/

/-- The digits of `Setting`. -/
def readSize (result : { n : Nat // n < sizeLimit }) :
    Bytes → Except Bytes { n : Nat // n < sizeLimit }
  | [] => .ok result
  | c :: rest =>
      if digit : 48 ≤ c.toNat ∧ c.toNat ≤ 57 ∧
          result.val ≤ (sizeLimit - 1 - (c.toNat - 48)) / 10 then
        readSize ⟨result.val * 10 + (c.toNat - 48), by
          have large : 10 < sizeLimit := by unfold sizeLimit; omega
          have room := (Nat.le_div_iff_mul_le (by omega)).mp digit.2.2
          omega⟩ rest
      else .error (bytes "Invalid image resource configuration")

/-- `Setting`, given what the environment has under the name. -/
def setting (value : Option Bytes) (fallback : Size) : Except Bytes Size :=
  match value with
  | none => .ok fallback
  | some [] => .error (bytes "Empty image resource configuration")
  | some (c :: rest) => do
      let result ← readSize ⟨0, sizeLimit_pos⟩ (c :: rest)
      if nonzero : result.val = 0 then .error (bytes "Zero image resource configuration")
      else .ok ⟨result.val, Nat.pos_of_ne_zero nonzero, result.property⟩

/-- A default of `Policy`. -/
def defaultSize (n : Nat) (small : 0 < n ∧ n ≤ intMax) : Size :=
  ⟨n, small.1, by
    unfold sizeLimit
    unfold intMax at small
    omega⟩

/-- `GetPolicy`. -/
def getPolicy (getenv : Bytes → Option Bytes) : Except Bytes Policy := do
  let encoded ← setting (getenv (bytes "IMAGE_MAX_ENCODED_BYTES"))
    (defaultSize (16 * 1024 * 1024) (by decide))
  let pixels ← setting (getenv (bytes "IMAGE_MAX_ORIGINAL_PIXELS"))
    (defaultSize (16 * 1024 * 1024) (by decide))
  let bgr ← setting (getenv (bytes "IMAGE_MAX_BGR_BYTES"))
    (defaultSize (64 * 1024 * 1024) (by decide))
  let jobs ← setting (getenv (bytes "IMAGE_MAX_CONCURRENT_JOBS")) (defaultSize 2 (by decide))
  if encoded_le : encoded.val ≤ intMax then .ok ⟨encoded, pixels, bgr, jobs, encoded_le⟩
  else .error (bytes "Image encoded limit exceeds decoder representation")

/-- The policy of an environment without settings. -/
def defaultPolicy : Policy where
  encoded := defaultSize (16 * 1024 * 1024) (by decide)
  pixels := defaultSize (16 * 1024 * 1024) (by decide)
  bgr := defaultSize (64 * 1024 * 1024) (by decide)
  jobs := defaultSize 2 (by decide)
  encoded_le := by decide

/-! ## Reads and sums -/

/-- `p[i]`. -/
def read (data : Bytes) (i : Nat) : Except Fault UInt8 :=
  match data[i]? with
  | some b => .ok b
  | none => .error .outOfBounds

/-- The `count` bytes from `p + i`. -/
def readRange (data : Bytes) : Nat → Nat → Except Fault Bytes
  | _, 0 => .ok []
  | i, count + 1 => do
      let b ← read data i
      let rest ← readRange data (i + 1) count
      return b :: rest

/-- `a + b` on `size_t`. -/
def add (a b : Nat) : Except Fault Nat := if a + b < sizeLimit then .ok (a + b) else .error .wrapped

/-- `a - b` on `size_t`. -/
def sub (a b : Nat) : Except Fault Nat := if b ≤ a then .ok (a - b) else .error .wrapped

/-- `Error(400, message)`. -/
def invalid {α : Type} (message : String) : Except Fault α := .error (.error 400 (bytes message))

/-- `Error(413, message)`. -/
def tooLarge {α : Type} (message : String) : Except Fault α := .error (.error 413 (bytes message))

/-- The value of a big-endian number. -/
def bigEndian (digits : Bytes) : UInt32 := digits.foldl (fun n b => n <<< 8 ||| b.toUInt32) 0

/-- `BE32(p + i)`. -/
def be32 (data : Bytes) (i : Nat) : Except Fault UInt32 := return bigEndian (← readRange data i 4)

/-- The inner loop of `CRC`. -/
def crcBits : Nat → UInt32 → UInt32
  | 0, crc => crc
  | n + 1, crc => crcBits n ((crc >>> 1) ^^^ (0xedb88320 &&& (0 - (crc &&& 1))))

/-- `CRC(p + i, n)`. -/
def crc (data : Bytes) (i n : Nat) : Except Fault UInt32 := do
  let range ← readRange data i n
  return range.foldl (fun crc b => crcBits 8 (crc ^^^ b.toUInt32)) 0xffffffff ^^^ 0xffffffff

/-! ## The checks -/

structure Shape where
  width : UInt32
  height : UInt32
  jpeg : Bool := false
deriving DecidableEq, Repr

def checkEncoded (policy : Policy) (size : Nat) : Except Fault Unit :=
  if policy.encoded.val < size then tooLarge "Encoded image exceeds resource budget"
  else if size = 0 then invalid "Image data is empty"
  else .ok ()

def checkShape (policy : Policy) (width height : UInt32) : Except Fault Unit :=
  if width = 0 ∨ height = 0 ∨ intMax < width.toNat ∨ intMax < height.toNat then
    invalid "Invalid image dimensions"
  else if policy.pixels.val / height.toNat < width.toNat ∨
      policy.bgr.val / 3 / height.toNat < width.toNat then
    tooLarge "Original decoded image exceeds resource budget"
  else .ok ()

/-! ## PNG -/

def pngSignature : Bytes := [137, 80, 78, 71, 13, 10, 26, 10]

/-- The colour types and their depths. -/
def pngDepthValid (color depth : UInt8) : Bool :=
  (color == 0 && (depth == 1 || depth == 2 || depth == 4 || depth == 8 || depth == 16)) ||
    (color == 3 && (depth == 1 || depth == 2 || depth == 4 || depth == 8)) ||
    ((color == 2 || color == 4 || color == 6) && (depth == 8 || depth == 16))

/-- The chunks behind the header; `seen` says whether there was image data. -/
def pngChunks (data : Bytes) (shape : Shape) : Nat → Nat → Bool → Except Fault Shape
  | 0, _, _ => .error .unfinished
  | fuel + 1, pos, seen =>
      if pos < data.length then do
        let room ← sub data.length pos
        if room < 12 then invalid "Truncated PNG chunk"
        else do
          let len := (← be32 data pos).toNat
          if (← sub room 12) < len then invalid "Invalid PNG chunk length"
          else do
            let type ← readRange data (pos + 4) 4
            if type = bytes "IHDR" then invalid "Duplicate PNG header"
            else do
              let seen := seen || type = bytes "IDAT"
              if type = bytes "IEND" then
                if len ≠ 0 ∨ seen = false then invalid "Invalid PNG end"
                else do
                  if (← add pos 12) ≠ data.length then invalid "Invalid PNG end" else .ok shape
              else do
                let pos ← add pos (← add len 12)
                pngChunks data shape fuel pos seen
      else invalid "Truncated PNG image"

/-- The PNG branch of `Preflight`. -/
def pngPreflight (policy : Policy) (data : Bytes) : Except Fault Shape :=
  if data.length < 33 then invalid "Invalid PNG header"
  else do
    if (← be32 data 8) ≠ 13 ∨ (← readRange data 12 4) ≠ bytes "IHDR" ∨
        (← crc data 12 17) ≠ (← be32 data 29) then invalid "Invalid PNG header"
    else do
      let shape : Shape := { width := ← be32 data 16, height := ← be32 data 20 }
      if !pngDepthValid (← read data 25) (← read data 24) || (← read data 26) != 0 ||
          (← read data 27) != 0 || 1 < (← read data 28) then invalid "Unsupported PNG header"
      else do
        checkShape policy shape.width shape.height
        pngChunks data shape (data.length + 1) 33 false

/-! ## JPEG -/

/-- `while(pos<n && p[pos]==255) ++pos`. -/
def skipFill (data : Bytes) : Nat → Nat → Except Fault Nat
  | 0, _ => .error .unfinished
  | fuel + 1, pos =>
      if pos < data.length then do
        if (← read data pos) = 255 then skipFill data fuel (← add pos 1) else .ok pos
      else .ok pos

/-- The entropy-coded bytes of a scan, up to the next marker. -/
def skipScan (data : Bytes) : Nat → Nat → Except Fault Nat
  | 0, _ => .error .unfinished
  | fuel + 1, pos =>
      if pos < data.length then do
        if (← read data pos) ≠ 255 then skipScan data fuel (← add pos 1)
        else do
          let next ← skipFill data (data.length + 1) (← add pos 1)
          if next = data.length then .ok data.length
          else do
            let b ← read data next
            if b = 0 ∨ 208 ≤ b ∧ b ≤ 215 then skipScan data fuel (← add next 1) else .ok pos
      else .ok pos

/-- A marker of a frame header, supported or not. -/
def isFrame (marker : UInt8) : Bool :=
  192 ≤ marker && marker ≤ 207 && marker != 196 && marker != 200 && marker != 204

/-- A frame header of `len` bytes at `pos`; `framed` says that there was one before. -/
def jpegFrame (policy : Policy) (data : Bytes) (marker : UInt8) (framed : Bool) (pos len : Nat) :
    Except Fault Shape :=
  if (marker != 192 && marker != 193 && marker != 194) || framed || len < 8 then
    invalid "Unsupported JPEG frame"
  else do
    if (← read data (pos + 2)) ≠ 8 then invalid "Unsupported JPEG frame"
    else do
      let components ← read data (pos + 7)
      if components ≠ 1 ∧ components ≠ 3 ∧ components ≠ 4 ∨ len ≠ 8 + 3 * components.toNat then
        invalid "Unsupported JPEG frame"
      else do
        let shape : Shape :=
          { width := bigEndian (← readRange data (pos + 5) 2)
            height := bigEndian (← readRange data (pos + 3) 2)
            jpeg := true }
        checkShape policy shape.width shape.height
        return shape

/-- The frame, when the segment of `marker` is read. -/
def frameAfter (policy : Policy) (data : Bytes) (marker : UInt8) (frame : Option Shape)
    (pos len : Nat) : Except Fault (Option Shape) :=
  if isFrame marker then do
    let shape ← jpegFrame policy data marker frame.isSome pos len
    return some shape
  else .ok frame

/-- A scan header of `len` bytes at `pos`, and the scan. -/
def jpegScan (data : Bytes) (framed : Bool) (pos len : Nat) : Except Fault Nat :=
  if framed = false ∨ len < 6 then invalid "Invalid JPEG scan"
  else do
    if len ≠ 6 + 2 * (← read data (pos + 2)).toNat then invalid "Invalid JPEG scan"
    else skipScan data (data.length + 1) (← add pos len)

/-- The end marker, which a frame and a scan must be in front of. -/
def endOfImage (frame : Option Shape) (scan : Bool) : Except Fault Shape :=
  match frame with
  | some shape => if scan then .ok shape else invalid "Truncated JPEG image"
  | none => invalid "Truncated JPEG image"

/-- The markers; `frame` is the shape of the frame header, once there was one. -/
def jpegMarkers (policy : Policy) (data : Bytes) :
    Nat → Nat → Option Shape → Bool → Except Fault Shape
  | 0, _, _, _ => .error .unfinished
  | fuel + 1, pos, frame, scan =>
      if pos < data.length then do
        if (← read data pos) ≠ 255 then invalid "Invalid JPEG marker"
        else do
          let pos ← skipFill data (data.length + 1) (← add pos 1)
          if pos = data.length then invalid "Truncated JPEG image"
          else do
            let marker ← read data pos
            let pos ← add pos 1
            if marker = 217 then
              endOfImage frame scan
            else if marker = 0 ∨ marker = 216 ∨ 208 ≤ marker ∧ marker ≤ 215 then
              invalid "Invalid JPEG marker sequence"
            else do
              let room ← sub data.length pos
              if room < 2 then invalid "Truncated JPEG image"
              else do
                let len := (bigEndian (← readRange data pos 2)).toNat
                if len < 2 ∨ room < len then invalid "Invalid JPEG segment length"
                else do
                  let frame ← frameAfter policy data marker frame pos len
                  if marker = 218 then do
                    let pos ← jpegScan data frame.isSome pos len
                    jpegMarkers policy data fuel pos frame true
                  else do
                    let pos ← add pos len
                    jpegMarkers policy data fuel pos frame scan
      else invalid "Truncated JPEG image"

/-! ## Preflight -/

def startsWith (data signature : Bytes) : Except Fault Bool :=
  if signature.length ≤ data.length then do
    let first ← readRange data 0 signature.length
    return first = signature
  else .ok false

def preflight (policy : Policy) (data : Bytes) : Except Fault Shape := do
  checkEncoded policy data.length
  if ← startsWith data pngSignature then pngPreflight policy data
  else do
    if ← startsWith data [255, 216] then
      jpegMarkers policy data (data.length + 1) 2 none false
    else invalid "Only JPEG and PNG images are supported"

end AIService.Image
