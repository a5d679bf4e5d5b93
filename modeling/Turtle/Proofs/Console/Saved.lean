import Turtle.Console.Directory
import Turtle.Proofs.Canvas.Decoding

/-!
Saved pictures.

What a canvas is written to is a file that a reader of the format takes for the
picture on the canvas, no pixel more or less. So two canvases that look different
are never saved as the same file.
-/

namespace Turtle.Canvas

/-- The file that a canvas is written to has 54 bytes of headers and four bytes
for each pixel, and both sizes in the headers are right. It is read as the size
of the canvas and the color of each of its pixels, all of them opaque. Hence the
files of two canvases are equal exactly if both have the same size and the same
pixels. -/
theorem saved_lossless {Files : Type} [FileSystem Files] :
    (∀ c : Canvas, c.Savable → ∀ (files files' : Files) (path : Text),
      FileSystem.write files path c.bitmap = (files', none) →
        ∃ file, FileSystem.read files' path = .ok file ∧
          file.length = 54 + 4 * (c.width * c.height) ∧
          (Bitmap.Headers.ofFile file).fileSize = 54 + 4 * (c.width * c.height) ∧
          (Bitmap.Headers.ofFile file).pixelBytes = 4 * (c.width * c.height) ∧
          Bitmap.read? file =
            some ⟨c.width, c.height, fun x y => (c.pixel? x y).map (⟨·, 255⟩)⟩) ∧
      ∀ c c' : Canvas, c.Savable → c'.Savable →
        (c.bitmap = c'.bitmap ↔
          c.width = c'.width ∧ c.height = c'.height ∧ ∀ x y, c.pixel? x y = c'.pixel? x y) := by
  refine ⟨?_, fun c c' h h' => h.bitmap_eq_iff h'⟩
  intro c h files files' path hwrite
  refine ⟨c.bitmap, FileSystem.read_of_write hwrite, length_bitmap h.sized, ?_, ?_, h.read?_bitmap⟩
  · rw [h.headers_bitmap]
    rfl
  · rw [h.headers_bitmap]
    rfl

/-- Two pixels, one above the other or beside it, are told apart by the sizes
alone. -/
theorem saved_lossless_narrow :
    let c : Canvas := { blank 1 2 with pixels := #[⟨1, 2, 3⟩, .white] }
    let c' : Canvas := { blank 2 1 with pixels := #[⟨1, 2, 3⟩, .white] }
    (c.Savable ∧ c'.Savable ∧ Directory.write [] (ascii "a.bmp") c.bitmap =
        ([(ascii "a.bmp", c.bitmap)], none)) ∧
      (∃ file, Directory.read [(ascii "a.bmp", c.bitmap)] (ascii "a.bmp") = .ok file ∧
        file.length = 62 ∧ (Bitmap.read? file).bind (·.pixel? 0 1) = some ⟨.white, 255⟩) ∧
      c.bitmap ≠ c'.bitmap := by
  intro c c'
  have h : c.Savable := ⟨rfl, by decide, by decide, by decide, by decide⟩
  have h' : c'.Savable := ⟨rfl, by decide, by decide, by decide, by decide⟩
  have hwrite : Directory.write [] (ascii "a.bmp") c.bitmap =
      ([(ascii "a.bmp", c.bitmap)], none) := by
    decide +kernel
  obtain ⟨hread, hsame⟩ := @saved_lossless Directory _
  obtain ⟨file, hfile, hlength, -, -, himage⟩ := hread c h [] _ (ascii "a.bmp") hwrite
  refine ⟨⟨h, h', hwrite⟩, ⟨file, hfile, hlength, ?_⟩, ?_⟩
  · rw [himage]
    rfl
  · intro heq
    obtain ⟨hwidth, -⟩ := (hsame c c' h h').1 heq
    exact absurd hwidth (by decide)

end Turtle.Canvas
