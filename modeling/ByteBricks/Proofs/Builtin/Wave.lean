import ByteBricks.Builtin
import ByteBricks.Proofs.Execution.Laying

/-! # Wave Audio Files

  What the built-in template for wave audio files does with all bytes. The size of the format
  chunk is the number `f` at the offset 16, of which 16 bytes are its fixed part; the chunk of
  the samples begins behind it, and states their size `s` at the offset `24 + f`. Main
  statement: the condition under which the template succeeds, and its bricks. -/

namespace ByteBricks.Builtin

open Execution
open Template (Expr)

/-! ### Commands -/

/-- The size of the format chunk without its fixed part. -/
def extraSize : Expr :=
  .arith ⟨24, 27⟩ .int64 .sub (.access ⟨22, 27⟩ .uint32 (.member ⟨"fmt", 352⟩ ⟨"size", 359⟩))
    (.literal ⟨23, 27⟩ 16)

/-- The size of the samples. -/
def samplesSize : Expr := .access ⟨27, 29⟩ .uint32 (.member ⟨"data", 412⟩ ⟨"size", 420⟩)

/-- The fields of a wave audio file. -/
def waveFields : List Command :=
  [.place ⟨⟨20, 25⟩, ⟨"RiffHeader", 308⟩, none, ⟨"riff", 322⟩⟩,
   .place ⟨⟨21, 26⟩, ⟨"FormatChunk", 330⟩, none, ⟨"fmt", 345⟩⟩,
   .place ⟨⟨25, 27⟩, ⟨"uint8", 367⟩, some extraSize, ⟨"fmt_extra", 376⟩⟩,
   .place ⟨⟨26, 28⟩, ⟨"ChunkHeader", 389⟩, none, ⟨"data", 404⟩⟩,
   .place ⟨⟨28, 29⟩, ⟨"uint8", 428⟩, some samplesSize, ⟨"samples", 437⟩⟩]

/-- The structs that these fields refer to. -/
def WaveStructs (layouts : List Layout) : Prop :=
  HasStruct layouts "RiffHeader" 0 12 ∧ HasStruct layouts "FormatChunk" 1 24 ∧
    HasStruct layouts "ChunkHeader" 2 8 ∧ HasMember layouts 1 "size" 4 .uint32 ∧
    HasMember layouts 2 "size" 4 .uint32

instance : DecidablePred WaveStructs := fun _ => inferInstanceAs (Decidable (_ ∧ _ ∧ _ ∧ _ ∧ _))

theorem compile_wave : ∃ t, Template.compile wave = .ok t ∧ Prefaces WaveStructs waveFields t := by
  have hchecks : (Template.compile wave).toOption.any
      (prefaced (fun layouts => decide (WaveStructs layouts)) 3 waveFields) = true := by
    unfold wave
    rw [compile_ofList]
    decide +kernel
  exact exists_prefaces hchecks

/-! ### Sizes -/

/-- The size of the format chunk as its header states it. -/
def formatSize (bytes : Array UInt8) : Nat := uint32At bytes 16

/-- The size of the samples as the header behind the format chunk states it. -/
def dataSize (bytes : Array UInt8) : Nat := uint32At bytes (24 + formatSize bytes)

variable {bytes : Array UInt8} {store : Store}

theorem yields_extraSize (hinside : 36 ≤ bytes.size)
    (hfmt : store.field? "fmt" = some ⟨"fmt", 12, .struct 1, 1, false⟩)
    (hmember : HasMember store.layouts 1 "size" 4 .uint32) :
    Yields ⟨.bytes bytes, .little⟩ store extraSize (formatSize bytes - 16) := by
  have hlt : formatSize bytes < 2 ^ 32 := uint32At_lt bytes 16
  have hsixteen : (16 : Int64).toInt = 16 := rfl
  apply Yields.sub _ (yields_literal hsixteen _)
  · unfold Word.int64Min Word.int64Max
    omega
  · apply yields_member hfmt rfl hmember rfl
    · omega
    · decide

theorem yields_samplesSize {start : Int64} (hstart : start.toInt = 20 + formatSize bytes)
    (hinside : 28 + formatSize bytes ≤ bytes.size)
    (hdata : store.field? "data" = some ⟨"data", start, .struct 2, 1, false⟩)
    (hmember : HasMember store.layouts 2 "size" 4 .uint32) :
    Yields ⟨.bytes bytes, .little⟩ store samplesSize (dataSize bytes) := by
  have hlt : formatSize bytes < 2 ^ 32 := uint32At_lt bytes 16
  apply yields_member hdata rfl hmember
  · show start.toInt + 4 = (24 + formatSize bytes : Nat)
    omega
  · omega
  · unfold Word.int64Max
    omega

/-! ### Bricks -/

/-- The bricks of a file whose format chunk has the size `f` and whose samples have the size
    `s`. -/
def waveSpans (f s : Nat) : List Span :=
  [⟨"riff", 0, 12⟩, ⟨"fmt", 12, 36⟩, ⟨"fmt_extra", 36, 20 + f⟩, ⟨"data", 20 + f, 28 + f⟩,
    ⟨"samples", 28 + f, 28 + f + s⟩].filter Span.isFilled

/-- A part without bytes has no brick. -/
example : waveSpans 16 0 = [⟨"riff", 0, 12⟩, ⟨"fmt", 12, 36⟩, ⟨"data", 36, 44⟩] := by decide

theorem waveFields_leadsTo {layouts : List Layout} (h : WaveStructs layouts)
    (bytes : Array UInt8) :
    Sketch.LeadsTo bytes ⟨⟨layouts, []⟩, [], 0⟩ waveFields
      (36 ≤ bytes.size ∧ 16 ≤ formatSize bytes ∧ 28 + formatSize bytes ≤ bytes.size ∧
        28 + formatSize bytes + dataSize bytes ≤ bytes.size)
      (waveSpans (formatSize bytes) (dataSize bytes))
      (28 + formatSize bytes + dataSize bytes) := by
  obtain ⟨hriff, hfmt, hdata, hfmtSize, hdataSize⟩ := h
  have hf : formatSize bytes < 2 ^ 32 := uint32At_lt bytes 16
  have hs : dataSize bytes < 2 ^ 32 := uint32At_lt bytes _
  apply Sketch.leadsTo_struct rfl hriff (by decide) (by omega) (by omega)
  · omega
  intro _
  apply Sketch.leadsTo_struct rfl hfmt (by decide) (by omega) (by omega)
  · omega
  intro hheaders
  -- The data reach behind the format chunk here, so its size can be read.
  apply Sketch.leadsTo_bytes rfl rfl (yields_extraSize (by omega) rfl hfmtSize)
    (by decide) (by omega) (by omega)
  · omega
  intro n hn _
  apply Sketch.leadsTo_struct rfl hdata (by decide) (by omega) (by omega)
  · omega
  intro hchunk
  -- And behind the header of the samples here.
  have hstart : (Int64.ofInt (0 + (12 : Nat) + (24 : Nat) + n)).toInt = 20 + formatSize bytes := by
    rw [Int64.toInt_ofInt_of_le (by omega) (by omega)]
    omega
  apply Sketch.leadsTo_bytes rfl rfl (yields_samplesSize hstart (by omega) rfl hdataSize)
    (by decide) (by omega) (by omega)
  · omega
  intro m hm _
  apply Sketch.leadsTo_nil
  · omega
  · unfold waveSpans
    simp only [← List.filter_append, List.nil_append, List.cons_append]
    apply congrArg (List.filter Span.isFilled)
    simp only [List.cons.injEq, Span.mk.injEq, true_and, and_true]
    omega
  · dsimp only
    omega

/-- **Main theorem.** The template for wave audio files succeeds exactly on the bytes that hold
    the headers, a format chunk of at least 16 bytes, the header behind it and the samples. Each
    part that covers bytes is a brick then, and the execution ends behind the samples. -/
theorem wave_lays : ∃ t, template? "wav" = some (.ok t) ∧ ∀ bytes,
    Lays t bytes
      (36 ≤ bytes.size ∧ 16 ≤ formatSize bytes ∧ 28 + formatSize bytes ≤ bytes.size ∧
        28 + formatSize bytes + dataSize bytes ≤ bytes.size)
      (waveSpans (formatSize bytes) (dataSize bytes))
      (28 + formatSize bytes + dataSize bytes) := by
  obtain ⟨t, ht, hprefaces⟩ := compile_wave
  refine ⟨t, congrArg some ht, ?_⟩
  intro bytes
  apply hprefaces.lays ⟨wave, ht⟩
  intro layouts h
  exact waveFields_leadsTo h bytes

end ByteBricks.Builtin
