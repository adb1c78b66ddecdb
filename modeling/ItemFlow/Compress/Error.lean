/-! Why a compressed stream is refused. The reasons are kept apart for the reader's sake;
a save file reports every one of them the same way. -/
namespace ItemFlow

/-- Why a compressed stream is refused. -/
inductive DecodeError where
  /-- The input ends inside a frame. -/
  | truncated
  /-- The input holds bytes that start no frame. -/
  | unknownFrame
  /-- The frame asks for a feature this decoder does not provide: reserved bits, a
  dictionary, or a window larger than it accepts. -/
  | unsupported
  /-- The frame's contents contradict themselves. -/
  | corrupt
  /-- The decoded content does not match the frame's checksum. -/
  | checksum
deriving DecidableEq, Repr

end ItemFlow
