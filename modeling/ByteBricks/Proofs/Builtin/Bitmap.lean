import ByteBricks.Builtin
import ByteBricks.Proofs.Execution.Laying

/-! # Bitmap Files

  What the built-in template for bitmap files does with all bytes. Behind two headers of 14 and
  40 bytes, it lays as many bytes as lie between the headers and the pixels by what the headers
  state: the offset of the pixels, less 14, less the size of the second header. Main statement:
  the exact outcome of the template, and that the pixels are found just for second headers that
  state the 40 bytes they are given. -/

namespace ByteBricks.Builtin

open Execution
open Template (Expr)

/-! ### Commands -/

/-- The size of the second header. -/
def infoSize : Expr := .access ⟨24, 29⟩ .uint32 (.member ⟨"info", 508⟩ ⟨"header_size", 516⟩)

/-- The size of what lies in front of the pixels. -/
def paletteSize : Expr :=
  .arith ⟨25, 29⟩ .int64 .sub
    (.arith ⟨23, 29⟩ .int64 .sub
      (.access ⟨21, 29⟩ .uint32 (.member ⟨"file", 484⟩ ⟨"pixel_offset", 492⟩))
      (.literal ⟨22, 29⟩ 14))
    infoSize

/-- The size of the pixels. -/
def pixelsSize : Expr :=
  .access ⟨27, 30⟩ .uint32 (.member ⟨"info", 551⟩ ⟨"image_size", 559⟩)

/-- The fields of a bitmap file. -/
def bitmapFields : List Command :=
  [.place ⟨⟨19, 25⟩, ⟨"BitmapFileHeader", 428⟩, none, ⟨"file", 448⟩⟩,
   .place ⟨⟨20, 26⟩, ⟨"BitmapInfoHeader", 456⟩, none, ⟨"info", 476⟩⟩,
   .place ⟨⟨26, 29⟩, ⟨"uint8", 531⟩, some paletteSize, ⟨"palette", 540⟩⟩,
   .place ⟨⟨28, 30⟩, ⟨"uint8", 573⟩, some pixelsSize, ⟨"pixels", 582⟩⟩]

/-- The structs that these fields refer to. -/
def BitmapStructs (layouts : List Layout) : Prop :=
  HasStruct layouts "BitmapFileHeader" 0 14 ∧ HasStruct layouts "BitmapInfoHeader" 1 40 ∧
    HasMember layouts 0 "pixel_offset" 10 .uint32 ∧ HasMember layouts 1 "header_size" 0 .uint32 ∧
    HasMember layouts 1 "image_size" 20 .uint32

instance : DecidablePred BitmapStructs := fun _ => inferInstanceAs (Decidable (_ ∧ _ ∧ _ ∧ _ ∧ _))

theorem compile_bitmap :
    ∃ t, Template.compile bitmap = .ok t ∧ Prefaces BitmapStructs bitmapFields t := by
  have hchecks : (Template.compile bitmap).toOption.any
      (prefaced (fun layouts => decide (BitmapStructs layouts)) 2 bitmapFields) = true := by
    unfold bitmap
    rw [compile_ofList]
    decide +kernel
  exact exists_prefaces hchecks

/-! ### Sizes -/

/-- The offset of the pixels as the first header states it. -/
def pixelOffset (bytes : Array UInt8) : Nat := uint32At bytes 10

/-- The size of the second header as it states it itself. -/
def headerSize (bytes : Array UInt8) : Nat := uint32At bytes 14

/-- The size of the pixels as the second header states it. -/
def imageSize (bytes : Array UInt8) : Nat := uint32At bytes 34

section Yields

variable {bytes : Array UInt8} {store : Store} (hinside : 54 ≤ bytes.size)
  (hfile : store.field? "file" = some ⟨"file", 0, .struct 0, 1, false⟩)
  (hinfo : store.field? "info" = some ⟨"info", 14, .struct 1, 1, false⟩)
include hinside hinfo

theorem yields_infoSize (h : HasMember store.layouts 1 "header_size" 0 .uint32) :
    Yields ⟨.bytes bytes, .little⟩ store infoSize (headerSize bytes) := by
  apply yields_member hinfo rfl h rfl
  · omega
  · decide

theorem yields_pixelsSize (h : HasMember store.layouts 1 "image_size" 20 .uint32) :
    Yields ⟨.bytes bytes, .little⟩ store pixelsSize (imageSize bytes) := by
  apply yields_member hinfo rfl h rfl
  · omega
  · decide

include hfile

theorem yields_paletteSize (hpixelOffset : HasMember store.layouts 0 "pixel_offset" 10 .uint32)
    (hheaderSize : HasMember store.layouts 1 "header_size" 0 .uint32) :
    Yields ⟨.bytes bytes, .little⟩ store paletteSize
      (pixelOffset bytes - 14 - headerSize bytes) := by
  have hp : pixelOffset bytes < 2 ^ 32 := uint32At_lt bytes 10
  have hh : headerSize bytes < 2 ^ 32 := uint32At_lt bytes 14
  have hfourteen : (14 : Int64).toInt = 14 := rfl
  apply Yields.sub (Yields.sub _ (yields_literal hfourteen _) _ _ _)
  · exact yields_infoSize hinside hinfo hheaderSize
  · unfold Word.int64Min Word.int64Max
    omega
  · apply yields_member hfile rfl hpixelOffset rfl
    · omega
    · decide
  · unfold Word.int64Min Word.int64Max
    omega

end Yields

/-! ### Bricks -/

/-- The bricks of a file whose headers state the offset `p` and the size `s` of the pixels, and
    the size `h` of the second header. -/
def bitmapSpans (p h s : Nat) : List Span :=
  [⟨"file", 0, 14⟩, ⟨"info", 14, 54⟩, ⟨"palette", 54, 40 + p - h⟩,
    ⟨"pixels", 40 + p - h, 40 + p - h + s⟩].filter Span.isFilled

/-- The bytes hold the headers, and the palette and the pixels behind them. -/
def HoldsBitmap (bytes : Array UInt8) : Prop :=
  54 ≤ bytes.size ∧ 14 + headerSize bytes ≤ pixelOffset bytes ∧
    40 + pixelOffset bytes ≤ bytes.size + headerSize bytes ∧
    40 + pixelOffset bytes + imageSize bytes ≤ bytes.size + headerSize bytes

instance (bytes : Array UInt8) : Decidable (HoldsBitmap bytes) :=
  inferInstanceAs (Decidable (_ ∧ _ ∧ _ ∧ _))

theorem bitmapFields_leadsTo {layouts : List Layout} (h : BitmapStructs layouts)
    (bytes : Array UInt8) :
    Sketch.LeadsTo bytes ⟨⟨layouts, []⟩, [], 0⟩ bitmapFields (HoldsBitmap bytes)
      (bitmapSpans (pixelOffset bytes) (headerSize bytes) (imageSize bytes))
      (40 + pixelOffset bytes - headerSize bytes + imageSize bytes) := by
  obtain ⟨hfile, hinfo, hpixelOffset, hheaderSize, himageSize⟩ := h
  have hp : pixelOffset bytes < 2 ^ 32 := uint32At_lt bytes 10
  have hh : headerSize bytes < 2 ^ 32 := uint32At_lt bytes 14
  have hs : imageSize bytes < 2 ^ 32 := uint32At_lt bytes 34
  unfold HoldsBitmap
  apply Sketch.leadsTo_struct rfl hfile (by decide) (by omega) (by omega)
  · omega
  intro _
  apply Sketch.leadsTo_struct rfl hinfo (by decide) (by omega) (by omega)
  · omega
  intro hheaders
  -- The data hold both headers from here on.
  apply Sketch.leadsTo_bytes rfl rfl
    (yields_paletteSize (by omega) rfl rfl hpixelOffset hheaderSize)
    (by decide) (by omega) (by omega)
  · omega
  intro n hn _
  apply Sketch.leadsTo_bytes rfl rfl (yields_pixelsSize (by omega) rfl himageSize)
    (by decide) (by omega) (by omega)
  · omega
  intro m hm _
  apply Sketch.leadsTo_nil
  · omega
  · unfold bitmapSpans
    simp only [← List.filter_append, List.nil_append, List.cons_append]
    apply congrArg (List.filter Span.isFilled)
    simp only [List.cons.injEq, Span.mk.injEq, true_and, and_true]
    omega
  · dsimp only
    omega

/-- The exact outcome of the template for bitmap files. -/
theorem bitmap_lays : ∃ t, template? "bmp" = some (.ok t) ∧ ∀ bytes,
    Lays t bytes (HoldsBitmap bytes)
      (bitmapSpans (pixelOffset bytes) (headerSize bytes) (imageSize bytes))
      (40 + pixelOffset bytes - headerSize bytes + imageSize bytes) := by
  obtain ⟨t, ht, hprefaces⟩ := compile_bitmap
  refine ⟨t, congrArg some ht, ?_⟩
  intro bytes
  apply hprefaces.lays ⟨bitmap, ht⟩
  intro layouts h
  exact bitmapFields_leadsTo h bytes

/-! ### Pixels -/

/-- If the template succeeds on the bytes and there are pixels, they are a brick at the offset and
    of the size that the headers state. -/
def FindsPixels (template : Template) (bytes : Array UInt8) : Prop :=
  ∀ r, (template.execute .empty (.bytes bytes) ⟨0, .little⟩).result = .ok r →
    imageSize bytes ≠ 0 →
    ⟨"pixels", pixelOffset bytes, pixelOffset bytes + imageSize bytes⟩ ∈
      (template.execute .empty (.bytes bytes) ⟨0, .little⟩).wall.bricks.map Brick.span

theorem pixels_mem_bitmapSpans_iff {p h s : Nat} (hs : s ≠ 0) :
    ⟨"pixels", p, p + s⟩ ∈ bitmapSpans p h s ↔ h = 40 := by
  unfold bitmapSpans
  rw [List.mem_filter]
  -- The name rules out all bricks but the last.
  simp only [List.mem_cons, List.not_mem_nil, Span.mk.injEq, String.reduceEq, Span.isFilled,
    false_and, true_and, false_or, or_false, decide_eq_true_eq]
  omega

/-- **Main theorem.** The template for bitmap files finds the pixels of the files that it accepts
    if and only if they state a second header of 40 bytes. -/
theorem findsPixels_iff (bytes : Array UInt8) : ∃ t, template? "bmp" = some (.ok t) ∧
    (FindsPixels t bytes ↔ (HoldsBitmap bytes → imageSize bytes ≠ 0 → headerSize bytes = 40)) := by
  obtain ⟨t, ht, hlays⟩ := bitmap_lays
  refine ⟨t, ht, ?_⟩
  have hlays := hlays bytes
  constructor
  · intro hfinds hholds hpixels
    obtain ⟨r, hr⟩ := hlays.succeeds.2 hholds
    have hmem := hfinds r hr hpixels
    rw [hlays.bricks r hr] at hmem
    exact (pixels_mem_bitmapSpans_iff hpixels).1 hmem
  · intro hsize r hr hpixels
    rw [hlays.bricks r hr]
    exact (pixels_mem_bitmapSpans_iff hpixels).2 (hsize (hlays.succeeds.1 ⟨r, hr⟩) hpixels)

/-- A bitmap whose second header has 124 bytes, with one pixel behind the headers. -/
def longHeader : Array UInt8 :=
  #[66, 77, 142, 0, 0, 0, 0, 0, 0, 0, 138, 0, 0, 0, 124, 0, 0, 0, 1, 0, 0, 0, 1, 0, 0, 0, 1, 0, 24,
    0, 0, 0, 0, 0, 4, 0, 0, 0] ++ Array.replicate 104 0

theorem longHeader_pixels_not_found :
    ∃ t, template? "bmp" = some (.ok t) ∧ ¬FindsPixels t longHeader := by
  obtain ⟨t, ht, hlays⟩ := bitmap_lays
  refine ⟨t, ht, ?_⟩
  intro hfinds
  have hlays := hlays longHeader
  have hholds : HoldsBitmap longHeader := by decide +kernel
  have hpixels : imageSize longHeader ≠ 0 := by decide +kernel
  obtain ⟨r, hr⟩ := hlays.succeeds.2 hholds
  have hmem := hfinds r hr hpixels
  rw [hlays.bricks r hr] at hmem
  have hsize := (pixels_mem_bitmapSpans_iff hpixels).1 hmem
  revert hsize
  decide +kernel

end ByteBricks.Builtin
