/-
Module: AbcBuild.Proofs.Streams
Purpose: Streams of typed values.  What is written for a list of values is read back by their kinds, up to
  what follows, and no value has a shorter form than the one that is written.
Main exports: Wire.Kind, Wire.Kind.codec, Wire.readAll, Wire.streams_read_back
-/
import AbcBuild.Proofs.Utf8

namespace AbcBuild.Wire

/-- The kinds of values in a stream.  How many raw bytes there are has to be known. -/
inductive Kind where
  | u8
  | u16
  | u32
  | u30
  | s32
  | d64
  | string
  | bytes (length : Nat)
deriving Repr, DecidableEq

namespace Kind

abbrev Value : Kind → Type
  | u8 => UInt8
  | u16 => UInt16
  | u32 => UInt32
  | u30 => Nat
  | s32 => Int32
  | d64 => Double
  | string => String
  | bytes _ => List UInt8

def read : (kind : Kind) → Reader kind.Value
  | u8 => Reader.u8
  | u16 => Reader.u16
  | u32 => Reader.u32
  | u30 => Reader.u30
  | s32 => Reader.s32
  | d64 => Reader.d64
  | string => Reader.string
  | bytes length => Reader.bytes length

def write : (kind : Kind) → kind.Value → List UInt8
  | u8, b => [b]
  | u16, value => Writer.u16 value
  | u32, value => Writer.u32 value
  | u30, value => Writer.u30 value
  | s32, value => Writer.s32 value
  | d64, value => Writer.d64 value
  | string, text => Writer.string text
  | bytes _, taken => taken

/-- The value can be written as one of its kind. -/
def Fits : (kind : Kind) → kind.Value → Prop
  | u30, n => n < 2 ^ 30
  | string, text => (Utf8.encodeString text).length < 2 ^ 30
  | bytes length, taken => taken.length = length
  | u8, _ | u16, _ | u32, _ | s32, _ | d64, _ => True

instance : (kind : Kind) → DecidablePred kind.Fits
  | u30 => fun n => inferInstanceAs (Decidable (n < 2 ^ 30))
  | string => fun text => inferInstanceAs (Decidable ((Utf8.encodeString text).length < 2 ^ 30))
  | bytes length => fun taken => inferInstanceAs (Decidable (taken.length = length))
  | u8 | u16 | u32 | s32 | d64 => fun _ => inferInstanceAs (Decidable True)

theorem codec (kind : Kind) : Codec kind.read kind.write kind.Fits := by
  cases kind with
  | u8 => exact Codec.u8
  | u16 => exact Codec.u16
  | u32 => exact Codec.u32
  | u30 => exact Codec.u30
  | s32 => exact Codec.s32
  | d64 => exact Codec.d64
  | string => exact Codec.string
  | bytes length => exact Codec.bytes length

end Kind

/-- A value with its kind. -/
abbrev Typed := (kind : Kind) × kind.Value

/-- Write values one after the other. -/
def writeAll (values : List Typed) : List UInt8 := values.flatMap fun value => value.1.write value.2

/-- Read values of the given kinds one after the other. -/
def readAll : List Kind → Reader (List Typed)
  | [] => return []
  | kind :: rest => do
    let value ← kind.read
    let more ← readAll rest
    return ⟨kind, value⟩ :: more

theorem reads_writeAll {values : List Typed} (fits : ∀ value ∈ values, value.1.Fits value.2) :
    Reads (readAll (values.map Sigma.fst)) (writeAll values) values := by
  induction values with
  | nil => exact Reads.pure []
  | cons value rest ih =>
    have first := value.1.codec.readsBack value.2 (fits value (.head _))
    have later := ih fun other member => fits other (List.mem_cons_of_mem value member)
    have whole :=
      first.bind (k := fun a => readAll (rest.map Sigma.fst) >>= fun more => pure (⟨value.1, a⟩ :: more))
        (later.bind (Reads.pure (value :: rest)))
    rwa [List.append_nil] at whole

/-- What is written for values is read back as these values, and just what follows is left.  Whatever bytes
    are read as a value, those that are written for it are no more. -/
theorem streams_read_back :
    (∀ values : List Typed, (∀ value ∈ values, value.1.Fits value.2) → ∀ trailing : List UInt8,
        readAll (values.map Sigma.fst) (Reader.start (writeAll values ++ trailing)) =
          .ok values ⟨(writeAll values).length, trailing⟩) ∧
      ∀ (kind : Kind) (value : kind.Value) (position : Nat) (used rest : List UInt8),
        kind.read ⟨position, used ++ rest⟩ = .ok value ⟨position + used.length, rest⟩ →
          (kind.write value).length ≤ used.length := by
  constructor
  · intro values fits trailing
    have read := reads_writeAll fits 0 trailing
    rwa [Nat.zero_add] at read
  · intro kind value position used rest read
    obtain ⟨taken, took, -, short⟩ := kind.codec.sound _ value _ read
    have same : used = taken := List.append_cancel_right took.input
    rwa [same]

/-- A value of each kind, among them the least signed integer and a text that is not plain. -/
def samples : List Typed :=
  [⟨.u8, 255⟩, ⟨.u16, 258⟩, ⟨.u32, 4294967295⟩, ⟨.u30, 128⟩, ⟨.s32, -2147483648⟩, ⟨.d64, ⟨1⟩⟩,
    ⟨.string, "é"⟩, ⟨.bytes 2, [3, 4]⟩]

/-- The samples are read back with a byte after them, and the number 1 is written shorter than in three
    bytes. -/
theorem streams_read_back_samples :
    (∀ value ∈ samples, value.1.Fits value.2) ∧
      readAll [.u8, .u16, .u32, .u30, .s32, .d64, .string, .bytes 2]
        (Reader.start (writeAll samples ++ [9])) = .ok samples ⟨28, [9]⟩ ∧
      Kind.u32.read ⟨0, [0x81, 0x80, 0] ++ [9]⟩ = .ok 1 ⟨0 + 3, [9]⟩ ∧ (Writer.u32 1).length ≤ 3 := by
  have fits : ∀ value ∈ samples, value.1.Fits value.2 := by decide
  have padded : Kind.u32.read ⟨0, [0x81, 0x80, 0] ++ [9]⟩ = .ok 1 ⟨0 + 3, [9]⟩ := rfl
  exact ⟨fits, streams_read_back.1 samples fits [9], padded,
    streams_read_back.2 .u32 1 0 [0x81, 0x80, 0] [9] padded⟩

end AbcBuild.Wire
