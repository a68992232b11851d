import ByteBricks.Template.Compile

/-! # Built-in Templates

  The templates that come with the library: a bitmap and a wave audio file. -/

namespace ByteBricks.Builtin

/-- A bitmap file: two headers of fixed size, whatever fills the space up to the
    pixels, and the pixels. -/
def bitmap : String :=
  "// Windows bitmap with a BITMAPINFOHEADER.

struct BitmapFileHeader \x7b
    char[2] magic;
    uint32 file_size;
    uint16 reserved1;
    uint16 reserved2;
    uint32 pixel_offset;
\x7d

struct BitmapInfoHeader \x7b
    uint32 header_size;
    int32 width;
    int32 height;
    uint16 planes;
    uint16 bits_per_pixel;
    uint32 compression;
    uint32 image_size;
    int32 x_pixels_per_meter;
    int32 y_pixels_per_meter;
    uint32 colors_used;
    uint32 colors_important;
\x7d

BitmapFileHeader file;
BitmapInfoHeader info;

// color table and anything else before the pixels
uint8[file.pixel_offset - 14 - info.header_size] palette;
uint8[info.image_size] pixels;
"

/-- A wave audio file: the format chunk, whose size may exceed its fixed part, and
    the chunk of the samples. -/
def wave : String :=
  "// RIFF wave audio with the format chunk first and the data chunk second.

struct RiffHeader \x7b
    char[4] riff;
    uint32 size;
    char[4] wave;
\x7d

struct FormatChunk \x7b
    char[4] id;
    uint32 size;
    uint16 audio_format;
    uint16 channels;
    uint32 sample_rate;
    uint32 byte_rate;
    uint16 block_align;
    uint16 bits_per_sample;
\x7d

struct ChunkHeader \x7b
    char[4] id;
    uint32 size;
\x7d

RiffHeader riff;
FormatChunk fmt;
uint8[fmt.size - 16] fmt_extra;
ChunkHeader data;
uint8[data.size] samples;
"

/-- The names and sources of the templates, in the order of the names. -/
def sources : List (String × String) := [("bmp", bitmap), ("wav", wave)]

/-- The source of a name. -/
def source? (name : String) : Option String := sources.lookup name

/-- The template of a name. -/
def template? (name : String) : Option (Except Template.CompileError Template) :=
  (source? name).map Template.compile

/-- The template of a source, or its error, with the name of the source. -/
def withName (name : String) (result : Except Template.CompileError Template) :
    Except (String × Template.CompileError) (String × Template) :=
  (result.map (name, ·)).mapError (name, ·)

/-- Compiles named sources one after the other with one compiler. Stops at the first that
    fails. -/
def compileFrom (c : Compiler) :
    List (String × String) → Except (String × Template.CompileError) (List (String × Template))
  | [] => .ok []
  | (name, source) :: rest => do
    let (c, result) := c.compile source
    let template ← withName name result
    let templates ← compileFrom c rest
    pure (template :: templates)

/-- All templates with their names. -/
def templates : Except (String × Template.CompileError) (List (String × Template)) :=
  compileFrom .new sources

end ByteBricks.Builtin
