import Turtle.Canvas.Basic
import Turtle.Text.Basic

/-!
Bitmap files.

A file is a header of 14 bytes, one of 40 bytes, and the pixels with four bytes each: blue, green,
red, and an alpha that says opaque. Rows go from the bottom upwards, which a positive height in the
header announces, and need no padding. Integers are stored with the least significant byte first.
-/

namespace Turtle.Bitmap

/-- The last `count` bytes of a number, the least significant one first. -/
def littleEndian : (count : Nat) → Nat → Text
  | 0, _ => []
  | count + 1, n => (n % 256).toUInt8 :: littleEndian count (n / 256)

def word (n : Nat) : Text := littleEndian 4 n
def half (n : Nat) : Text := littleEndian 2 n

def fileHeaderSize : Nat := 14
def infoHeaderSize : Nat := 40

def pixelsOffset : Nat :=
  fileHeaderSize + infoHeaderSize

def fileHeader (pixelBytes : Nat) : Text :=
  ascii "BM" ++ word (pixelsOffset + pixelBytes) ++ half 0 ++ half 0 ++ word pixelsOffset

def bitsPerPixel : Nat := 32

/-- About 72 dots an inch. -/
def pixelsPerMeter : Nat := 2835

def infoHeader (width height pixelBytes : Nat) : Text :=
  word infoHeaderSize ++ word width ++ word height ++ half 1 ++ half bitsPerPixel ++ word 0 ++
    word pixelBytes ++ word pixelsPerMeter ++ word pixelsPerMeter ++ word 0 ++ word 0

def pixel (c : Color) : Text :=
  [c.blue, c.green, c.red, 255]

end Turtle.Bitmap

namespace Turtle.Canvas

/-- The bitmap file of a canvas. -/
def bitmap (c : Canvas) : Text :=
  let pixelBytes := 4 * c.pixels.size
  Bitmap.fileHeader pixelBytes ++ Bitmap.infoHeader c.width c.height pixelBytes ++
    c.pixels.toList.flatMap Bitmap.pixel

end Turtle.Canvas
