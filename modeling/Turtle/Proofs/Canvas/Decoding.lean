import Mathlib.Tactic.Ring
import Mathlib.Tactic.SplitIfs
import Turtle.Canvas.Bitmap
import Turtle.Proofs.Canvas.Grid

/-!
Reading bitmap files.

The reader knows the format and nothing of the program that wrote the file. It
takes the numbers of both headers from their places and goes by them: where the
pixels begin, how many there are in a row, how many rows there are, and whether
these go upwards or downwards. It takes files without compression and with four
bytes for a pixel.

A file that was written for a canvas is read as a picture of that size with the
colors of that canvas. All numbers in it are the numbers that were meant, as long
as the sides are not too long for them: a field has four bytes, which hold the
size of the file if there are less than a billion pixels.
-/

namespace Turtle.Bitmap

/-! ### Numbers in a file -/

/-- The number that bytes stand for, the least significant one first. -/
def number : Text → Nat
  | [] => 0
  | b :: bytes => b.toNat + 256 * number bytes

/-- The number in the bytes from an offset on. -/
def field (file : Text) (offset count : Nat) : Nat :=
  number ((file.drop offset).take count)

/-- A number of 32 bits, the upper half of which stands for negative numbers. -/
def signed (n : Nat) : Int :=
  if n < 2 ^ 31 then n else n - 2 ^ 32

@[simp]
theorem length_littleEndian (count n : Nat) : (littleEndian count n).length = count := by
  induction count generalizing n with
  | zero => rfl
  | succ count ih => rw [littleEndian, List.length_cons, ih]

theorem number_littleEndian {count n : Nat} (h : n < 256 ^ count) :
    number (littleEndian count n) = n := by
  induction count generalizing n with
  | zero =>
      obtain rfl : n = 0 := Nat.lt_one_iff.1 h
      rfl
  | succ count ih =>
      have hbyte : (n % 256).toUInt8.toNat = n % 256 := by simp
      have hrest : n / 256 < 256 ^ count := Nat.div_lt_of_lt_mul (by rwa [← Nat.pow_succ'])
      rw [littleEndian, number, hbyte, ih hrest]
      exact Nat.mod_add_div n 256

variable {rest : Text} {offset count n : Nat}

/-- A field begins behind what is in front of it. -/
theorem field_append {front : Text} (h : front.length ≤ offset) :
    field (front ++ rest) offset count = field rest (offset - front.length) count := by
  rw [field, List.drop_append, List.drop_eq_nil_of_le h, List.nil_append, field]

theorem field_littleEndian (h : n < 256 ^ count) :
    field (littleEndian count n ++ rest) 0 count = n := by
  rw [field, List.drop_zero, List.take_append_of_le_length (by simp),
    List.take_of_length_le (by simp), number_littleEndian h]

theorem signed_of_lt (h : n < 2 ^ 31) : signed n = n :=
  if_pos h

/-! ### The headers -/

structure Headers where
  magic : Text
  fileSize : Nat
  /-- Where the pixels begin. -/
  offset : Nat
  infoSize : Nat
  width : Int
  /-- It is negative if the upmost row comes first. -/
  height : Int
  planes : Nat
  bitsPerPixel : Nat
  compression : Nat
  pixelBytes : Nat
  deriving DecidableEq

namespace Headers

def ofFile (file : Text) : Headers where
  magic := file.take 2
  fileSize := field file 2 4
  offset := field file 10 4
  infoSize := field file 14 4
  width := signed (field file 18 4)
  height := signed (field file 22 4)
  planes := field file 26 2
  bitsPerPixel := field file 28 2
  compression := field file 30 4
  pixelBytes := field file 34 4

/-- The headers announce pixels of four bytes, and all of them are in the file. -/
def Announce (h : Headers) (file : Text) : Prop :=
  (h.magic = ascii "BM" ∧ h.fileSize = file.length ∧ h.infoSize = 40) ∧
    (0 < h.width ∧ h.height ≠ 0) ∧
    (h.planes = 1 ∧ h.bitsPerPixel = 32 ∧ h.compression = 0) ∧
    h.offset + 4 * (h.width.natAbs * h.height.natAbs) ≤ file.length

instance (h : Headers) (file : Text) : Decidable (h.Announce file) :=
  inferInstanceAs (Decidable (_ ∧ _))

/-- Where a row stands among the rows of the file. Rows are counted from the
bottom. -/
def place (h : Headers) (row : Nat) : Nat :=
  if 0 < h.height then row else h.height.natAbs - 1 - row

end Headers

/-! ### Pictures -/

structure Pixel where
  color : Color
  alpha : UInt8
  deriving DecidableEq

/-- The pixel at the beginning of the bytes. -/
def Pixel.read? : Text → Option Pixel
  | blue :: green :: red :: alpha :: _ => some ⟨⟨red, green, blue⟩, alpha⟩
  | _ => none

structure Image where
  width : Nat
  height : Nat
  /-- The pixel at a column and a row, counted from the lower left corner. -/
  pixel? : Int → Int → Option Pixel

/-- The picture in a file, as its headers say. -/
def read? (file : Text) : Option Image :=
  let h := Headers.ofFile file
  if h.Announce file then
    some {
      width := h.width.natAbs
      height := h.height.natAbs
      pixel? := fun x y =>
        if 0 ≤ x ∧ x < h.width ∧ 0 ≤ y ∧ y < h.height.natAbs then
          Pixel.read? (file.drop (h.offset + 4 * (h.place y.toNat * h.width.natAbs + x.toNat)))
        else none }
  else none

/-! ### Written headers and pixels -/

theorem length_fileHeader (pixelBytes : Nat) : (fileHeader pixelBytes).length = 14 := by
  simp [fileHeader, word, half, ascii]

theorem length_infoHeader (width height pixelBytes : Nat) :
    (infoHeader width height pixelBytes).length = 40 := by
  simp [infoHeader, word, half]

theorem length_flatMap_pixel (colors : List Color) :
    (colors.flatMap pixel).length = 4 * colors.length := by
  induction colors with
  | nil => rfl
  | cons color colors ih =>
      rw [List.flatMap_cons, List.length_append, ih, List.length_cons, Nat.mul_succ, Nat.add_comm]
      rfl

theorem read?_flatMap_pixel (colors : List Color) (i : Nat) :
    Pixel.read? ((colors.flatMap pixel).drop (4 * i)) = colors[i]?.map (⟨·, 255⟩) := by
  induction colors generalizing i with
  | nil => simp [Pixel.read?]
  | cons color colors ih =>
      cases i with
      | zero => rfl
      | succ i =>
          have hlength : (pixel color).length = 4 := rfl
          rw [List.flatMap_cons, Nat.mul_succ, Nat.add_comm, ← List.drop_drop, ← hlength,
            List.drop_left, List.getElem?_cons_succ, hlength]
          exact ih i

end Turtle.Bitmap

namespace Turtle.Canvas

open Bitmap

/-- A canvas of a size that can be asked for, with all its pixels. -/
structure Savable (c : Canvas) : Prop where
  sized : c.Sized
  width_pos : 1 ≤ c.width
  width_le : c.width ≤ 16384
  height_pos : 1 ≤ c.height
  height_le : c.height ≤ 16384

variable {c c' : Canvas}

theorem Savable.pixels_le (h : c.Savable) : c.width * c.height ≤ 16384 * 16384 :=
  Nat.mul_le_mul h.width_le h.height_le

/-! ### The headers of a written file -/

/-- The headers one field after the other. -/
theorem bitmap_eq (h : c.Sized) :
    c.bitmap = ascii "BM" ++ (littleEndian 4 (54 + 4 * (c.width * c.height)) ++
      (littleEndian 2 0 ++ (littleEndian 2 0 ++ (littleEndian 4 54 ++ (littleEndian 4 40 ++
      (littleEndian 4 c.width ++ (littleEndian 4 c.height ++ (littleEndian 2 1 ++
      (littleEndian 2 32 ++ (littleEndian 4 0 ++ (littleEndian 4 (4 * (c.width * c.height)) ++
      (littleEndian 4 2835 ++ (littleEndian 4 2835 ++ (littleEndian 4 0 ++ (littleEndian 4 0 ++
      c.pixels.toList.flatMap pixel))))))))))))))) := by
  simp only [bitmap, fileHeader, infoHeader, word, half, pixelsOffset, fileHeaderSize,
    infoHeaderSize, bitsPerPixel, pixelsPerMeter, Nat.reduceAdd, List.append_assoc]
  rw [h]

theorem length_bitmap (h : c.Sized) : c.bitmap.length = 54 + 4 * (c.width * c.height) := by
  rw [bitmap, List.length_append, List.length_append, length_fileHeader, length_infoHeader,
    length_flatMap_pixel, Array.length_toList, h]

/-- What the headers say of a canvas. -/
def headers (c : Canvas) : Headers where
  magic := ascii "BM"
  fileSize := 54 + 4 * (c.width * c.height)
  offset := 54
  infoSize := 40
  width := c.width
  height := c.height
  planes := 1
  bitsPerPixel := 32
  compression := 0
  pixelBytes := 4 * (c.width * c.height)

/-- The headers say it without loss. -/
theorem Savable.headers_bitmap (h : c.Savable) : Headers.ofFile c.bitmap = c.headers := by
  have hpixels := h.pixels_le
  have hwidth := h.width_le
  have hheight := h.height_le
  have hmagic : (ascii "BM").length = 2 := rfl
  have hwidth' : signed c.width = c.width := signed_of_lt (by omega)
  have hheight' : signed c.height = c.height := signed_of_lt (by omega)
  rw [Headers.ofFile, bitmap_eq h.sized, headers]
  simp (disch := first | omega | simp) only [field_append, length_littleEndian, hmagic,
    field_littleEndian, Nat.reduceSub, hwidth', hheight']
  rfl

theorem Savable.announce (h : c.Savable) : c.headers.Announce c.bitmap := by
  have hwidth := h.width_pos
  have hheight := h.height_pos
  refine ⟨⟨rfl, (length_bitmap h.sized).symm, rfl⟩, ⟨?_, ?_⟩, ⟨rfl, rfl, rfl⟩, ?_⟩
  · simp only [headers]
    omega
  · simp only [headers]
    omega
  · exact Nat.le_of_eq (length_bitmap h.sized).symm

/-! ### The pixels of a written file -/

theorem drop_bitmap (c : Canvas) (n : Nat) :
    c.bitmap.drop (54 + n) = (c.pixels.toList.flatMap pixel).drop n := by
  have hheaders : (fileHeader (4 * c.pixels.size) ++
      infoHeader c.width c.height (4 * c.pixels.size)).length = 54 := by
    rw [List.length_append, length_fileHeader, length_infoHeader]
  rw [bitmap, List.drop_append, hheaders, List.drop_eq_nil_of_le (by omega), List.nil_append,
    Nat.add_sub_cancel_left]

/-- A file that was written for a canvas is read as that canvas. -/
theorem Savable.read?_bitmap (h : c.Savable) :
    Bitmap.read? c.bitmap =
      some ⟨c.width, c.height, fun x y => (c.pixel? x y).map (⟨·, 255⟩)⟩ := by
  rw [Bitmap.read?]
  simp only [h.headers_bitmap, if_pos h.announce]
  have hup : ∀ row, c.headers.place row = row := by
    intro row
    have hheight := h.height_pos
    exact if_pos (by simp only [headers]; omega)
  congr 2
  funext x y
  rw [pixel?]
  by_cases hcontains : c.contains x y = true
  · obtain ⟨a, b, ha, hb, rfl, rfl⟩ := contains_iff.1 hcontains
    rw [if_pos hcontains, if_pos (by simp only [headers]; omega), hup]
    show Pixel.read? (c.bitmap.drop (54 + 4 * (b * c.width + a))) = _
    rw [drop_bitmap, read?_flatMap_pixel, Array.getElem?_toList]
    rfl
  · rw [if_neg hcontains, if_neg]
    · rfl
    · intro hinside
      apply hcontains
      simp only [headers, Int.natAbs_natCast] at hinside
      simp only [contains, Bool.and_eq_true, decide_eq_true_eq]
      omega

/-- The pixels of a canvas are what is found at its coordinates. -/
theorem pixels_eq_of_pixel? (h : c.Sized) (h' : c'.Sized) (hwidth : c.width = c'.width)
    (hheight : c.height = c'.height) (hpixels : ∀ x y, c.pixel? x y = c'.pixel? x y) :
    c.pixels = c'.pixels := by
  apply Array.ext_getElem?
  intro i
  by_cases hi : i < c.width * c.height
  · have hpos : 0 < c.width := Nat.pos_of_mul_pos_right (Nat.zero_lt_of_lt hi)
    have hcolumn : i % c.width < c.width := Nat.mod_lt i hpos
    have hrow : i / c.width < c.height := Nat.div_lt_of_lt_mul hi
    have hcontains : c.contains (i % c.width : Nat) (i / c.width : Nat) = true :=
      contains_iff.2 ⟨_, _, hcolumn, hrow, rfl, rfl⟩
    have hcontains' : c'.contains (i % c.width : Nat) (i / c.width : Nat) = true :=
      contains_iff.2 ⟨_, _, hwidth ▸ hcolumn, hheight ▸ hrow, rfl, rfl⟩
    have hplace : c.index (i % c.width : Nat) (i / c.width : Nat) = i := Nat.div_add_mod' i c.width
    have hplace' : c'.index (i % c.width : Nat) (i / c.width : Nat) = i := by
      rw [index_natCast, ← hwidth]
      exact Nat.div_add_mod' i c.width
    have hsame := hpixels (i % c.width : Nat) (i / c.width : Nat)
    rwa [pixel?_of_contains hcontains, pixel?_of_contains hcontains', hplace, hplace'] at hsame
  · rw [Array.getElem?_eq_none (by rw [h]; omega),
      Array.getElem?_eq_none (by rw [h', ← hwidth, ← hheight]; omega)]

/-- A file tells the size and the pixels, and nothing else. -/
theorem Savable.bitmap_eq_iff (h : c.Savable) (h' : c'.Savable) :
    c.bitmap = c'.bitmap ↔
      c.width = c'.width ∧ c.height = c'.height ∧ ∀ x y, c.pixel? x y = c'.pixel? x y := by
  constructor
  · intro hsame
    have hread := h.read?_bitmap
    rw [hsame, h'.read?_bitmap] at hread
    obtain ⟨hwidth, hheight, hpixels⟩ := Image.mk.inj (Option.some.inj hread)
    refine ⟨hwidth.symm, hheight.symm, ?_⟩
    intro x y
    have hpixel := congrFun (congrFun hpixels x) y
    simpa [Option.map_map, Function.comp_def, eq_comm] using
      congrArg (Option.map Pixel.color) hpixel
  · rintro ⟨hwidth, hheight, hpixels⟩
    rw [bitmap, bitmap, pixels_eq_of_pixel? h.sized h'.sized hwidth hheight hpixels, hwidth,
      hheight]

end Turtle.Canvas
