import Mathlib.Data.List.Chain
import Mathlib.Data.UInt
import Pvpgn.Stdio

/-!
Run-length packets of TGA images: `RLE_compress` cuts the pixels into RAW and RLE packets and
`RLE_decompress` fills a buffer from them. Signed arithmetic that overflows is `none`.
-/

namespace Pvpgn.TgaRle
open Stdio Nat
open List hiding count

abbrev Pixel := List UInt8

inductive TgaPktType where
  | RLE
  | RAW
  deriving DecidableEq

/-- `getpixelsize` -/
def getpixelsize (bpp : UInt8) : Nat :=
  if bpp = 8 then 1
  else if bpp = 15 ∨ bpp = 16 then 2
  else if bpp = 24 then 3
  else if bpp = 32 then 4
  else 0

/-- The fields of a `t_tgaimg` that are read; the data as pixels. -/
structure TgaImg where
  width : UInt16
  height : UInt16
  bpp : UInt8
  data : List Pixel
  supported : getpixelsize bpp ≠ 0
  sized : data.length = width.toNat * height.toNat
  pixels : ∀ pixel ∈ data, pixel.length = getpixelsize bpp

/-- The bytes that are appended to the file. -/
def rleWritePkt (pkttype : TgaPktType) (len : Nat) (data : List Pixel) : Text :=
  if len < 1 ∨ 128 < len then []
  else if pkttype = .RLE then
    if len < 2 then [] else UInt8.ofNat (0x80 ||| (len - 1)) :: data.headD []
  else UInt8.ofNat (len - 1) :: (data.take len).flatten

/-- The variables of the loop of `RLE_compress`. `datap` stands between `before`, which is
backwards, and `rest`; `pktdata` is filled up to `pktdatap`. -/
structure Compressor where
  pkttype : TgaPktType
  pktlen : Nat
  pktdata : List Pixel
  before : List Pixel
  rest : List Pixel
  file : Text

/-- `pktlen` is not 0. -/
def extendPkt (s : Compressor) (prev next : Pixel) (rest : List Pixel) : Compressor :=
  let pkttype := if s.pktlen = 1 ∧ prev = next then .RLE else s.pkttype
  if pkttype = .RLE then
    if prev ≠ next ∨ 128 ≤ s.pktlen then
      { s with pkttype := pkttype, file := s.file ++ rleWritePkt pkttype s.pktlen s.pktdata,
               pktlen := 0 }
    else { s with pkttype := pkttype, pktlen := s.pktlen + 1, before := next :: s.before,
                  rest := rest }
  else if prev = next ∨ 129 ≤ s.pktlen then
    -- the last pixel is pushed back
    { s with pkttype := pkttype, before := s.before.tail, rest := prev :: s.rest,
             file := s.file ++ rleWritePkt pkttype (s.pktlen - 1) s.pktdata, pktlen := 0 }
  else { s with pkttype := pkttype, pktdata := s.pktdata ++ [next], pktlen := s.pktlen + 1,
                before := next :: s.before, rest := rest }

/-- One turn with the pixel at `datap`; `none` when there is no pixel before it to compare. -/
def compressStep (s : Compressor) (next : Pixel) (rest : List Pixel) : Option Compressor :=
  if s.pktlen = 0 then
    some { s with pkttype := .RAW, pktlen := 1, pktdata := [next], before := next :: s.before,
                  rest := rest }
  else s.before.head?.map fun prev => extendPkt s prev next rest

def compressLoop : Nat → Compressor → Option Compressor
  | 0, _ => none
  | fuel + 1, s =>
    match s.rest with
    | [] => some s
    | next :: rest => (compressStep s next rest).bind (compressLoop fuel)

/-- The returned value and the file. Three turns a pixel are enough for the loop. -/
def rleCompress (img : TgaImg) : Option (Int × Text) :=
  if getpixelsize img.bpp = 0 then some (-1, [])
  else if 2 ^ 31 ≤ img.width.toNat * img.height.toNat * getpixelsize img.bpp then none
  else do
    let s ← compressLoop (3 * img.data.length + 1) ⟨.RAW, 0, [], [], img.data, []⟩
    some (0, s.file ++ if s.pktlen ≠ 0 then rleWritePkt s.pkttype s.pktlen s.pktdata else [])

/-- The variables of `RLE_decompress`: the rest of the file, the buffer, `bufi` and the array for
one pixel. -/
structure Decoder where
  file : Text
  buf : Text
  bufi : Nat
  temp : Text

def overwrite (cells : Text) (position : Nat) (bytes : Text) : Text :=
  cells.take position ++ bytes ++ cells.drop (position + bytes.length)

/-- A short read leaves what the buffer or the array held. -/
def readPacket (d : Decoder) (pt : UInt8) (file : Text) (count pixelsize : Nat) : Decoder :=
  if pt &&& 0x80 = 0 then
    { d with file := file.drop (count * pixelsize),
             buf := overwrite d.buf d.bufi (file.take (count * pixelsize)),
             bufi := d.bufi + count * pixelsize }
  else
    let temp := overwrite d.temp 0 (file.take pixelsize)
    { d with file := file.drop pixelsize, temp := temp,
             buf := overwrite d.buf d.bufi (replicate count (temp.take pixelsize)).flatten,
             bufi := d.bufi + count * pixelsize }

def decompressLoop (bufsize pixelsize : Nat) : Nat → Decoder → Option (Int × Decoder)
  | 0, _ => none
  | fuel + 1, d =>
    if d.bufi < bufsize then
      match d.file with
      | [] => some (-1, d)
      | pt :: file =>
        let count := (pt &&& 0x7f).toNat + 1
        if 2 ^ 31 ≤ d.bufi + count * pixelsize then none
        else if bufsize < d.bufi + count * pixelsize then some (-1, { d with file := file })
        else decompressLoop bufsize pixelsize fuel (readPacket d pt file count pixelsize)
    else some (0, d)

/-- Every turn fills a byte of the buffer. -/
def rleDecompress (file buf temp : Text) (bufsize pixelsize : Nat) : Option (Int × Decoder) :=
  decompressLoop bufsize pixelsize (bufsize + 1) ⟨file, buf, 0, temp⟩

/-! What a file of packets is. -/

inductive Packet where
  | raw (pixels : List Pixel)
  | run (count : Nat) (pixel : Pixel)

def Packet.covers : Packet → List Pixel
  | .raw pixels => pixels
  | .run count pixel => replicate count pixel

def Packet.bytes : Packet → Text
  | .raw pixels => UInt8.ofNat (pixels.length - 1) :: pixels.flatten
  | .run count pixel => UInt8.ofNat (0x80 ||| (count - 1)) :: pixel

def Packet.Sized (packet : Packet) : Prop := 1 ≤ packet.covers.length ∧ packet.covers.length ≤ 128

/-- `width*height*pixelsize` -/
def TgaImg.bufsize (img : TgaImg) : Nat := img.width.toNat * img.height.toNat * getpixelsize img.bpp

/-- What is written are packets of 1 to 128 pixels that fill a buffer with the image's data,
whatever follows them in the file. -/
def Restores (img : TgaImg) : Prop :=
  ∃ (file : Text) (packets : List Packet), rleCompress img = some (0, file) ∧
    file = packets.flatMap Packet.bytes ∧ (∀ packet ∈ packets, packet.Sized) ∧
    ∀ behind buf temp : Text, buf.length = img.bufsize → temp.length = 8 →
      ∃ d, rleDecompress (file ++ behind) buf temp img.bufsize (getpixelsize img.bpp) =
          some (0, d) ∧ d.buf = img.data.flatten ∧ d.file = behind

/-! The end of an image that is written as RAW packets. -/

/-- The equal pixels at the end of an image, which is given backwards. -/
def runLength : List Pixel → Nat
  | [] => 0
  | [_] => 1
  | last :: prev :: front => if last = prev then runLength (prev :: front) + 1 else 1

/-- The pixels of the end, no two neighbours of which are equal. The first of them ends a run of
equal pixels; it counts when the run leaves it over after packets of 128 pixels. -/
def rawTail : List Pixel → Nat
  | [] => 0
  | [_] => 1
  | last :: prev :: front =>
    if last = prev then (if runLength (last :: prev :: front) % 128 = 1 then 1 else 0)
    else rawTail (prev :: front) + 1

/-- One pixel more than fits goes to the last RAW packet. -/
def Overfull (pixels : List Pixel) : Prop :=
  129 ≤ rawTail pixels.reverse ∧ rawTail pixels.reverse % 128 = 1

/-! The compressor. -/

structure Idle (before rest : List Pixel) : Prop where
  ended : rest = [] → before = []
  short : rawTail before = 0 ∨ 2 ≤ rest.length
  aligned : rawTail before % 128 = 0 ∨ ∃ pixel tail, rest = pixel :: pixel :: tail
  run : ∀ last next, before.head? = some last → rest.head? = some next → last = next →
    runLength before % 128 = 0

structure Raw (pktlen : Nat) (before rest : List Pixel) : Prop where
  least : 1 ≤ pktlen
  most : pktlen ≤ 129
  run : runLength before % 128 = 1
  alone : pktlen = 1 → rawTail before = 1 ∨ rest ≠ []
  aligned : pktlen = 1 → rawTail before % 128 = 1 ∨ rest.head? = before.head?
  longer : 2 ≤ pktlen → rawTail before % 128 = pktlen % 128 ∧ pktlen ≤ rawTail before
  differ : 2 ≤ pktlen → ∀ last prev front, before = last :: prev :: front → last ≠ prev

structure Run (pktlen : Nat) (before : List Pixel) : Prop where
  least : 2 ≤ pktlen
  most : pktlen ≤ 128
  run : runLength before % 128 = pktlen % 128
  tail : rawTail before = 0

/-- What the variables are when `done` is written. -/
inductive Pending (done : List Pixel) (s : Compressor) : Prop
  | idle (empty : s.pktlen = 0) (all : s.before.reverse = done) (idle : Idle s.before s.rest)
  | raw (type : s.pkttype = .RAW) (length : s.pktdata.length = s.pktlen)
      (all : s.before.reverse = done ++ s.pktdata) (raw : Raw s.pktlen s.before s.rest)
  | run (type : s.pkttype = .RLE) (pixel : Pixel) (data : s.pktdata = [pixel])
      (all : s.before.reverse = done ++ replicate s.pktlen pixel)
      (run : Run s.pktlen s.before)

/-- The packets of the file cover what is done of the image. -/
structure Holding (data : List Pixel) (s : Compressor) (packets : List Packet) : Prop where
  file : s.file = packets.flatMap Packet.bytes
  sized : ∀ packet ∈ packets, packet.Sized
  whole : s.before.reverse ++ s.rest = data
  pending : Pending (packets.flatMap Packet.covers) s

variable (last : Pixel) (front : List Pixel)

theorem rawTail_same : rawTail (last :: last :: front) =
    if runLength (last :: last :: front) % 128 = 1 then 1 else 0 := by
  rw [rawTail, if_pos rfl]

variable {rest : List Pixel} {next : Pixel} {before : List Pixel} {packets : List Packet}
  {data : List Pixel} {prev : Pixel} {pktlen : Nat}

theorem rawTail_other {last : Pixel} (differ : last ≠ prev) :
    rawTail (last :: prev :: front) = rawTail (prev :: front) + 1 := by
  rw [rawTail, if_neg differ]

theorem runLength_same : runLength (last :: last :: front) = runLength (last :: front) + 1 := by
  rw [runLength, if_pos rfl]

theorem runLength_other {last : Pixel} (differ : last ≠ prev) :
    runLength (last :: prev :: front) = 1 := by
  rw [runLength, if_neg differ]

theorem Idle.start (idle : Idle before (next :: rest)) : Raw 1 (next :: before) rest := by
  have counts : runLength (next :: before) % 128 = 1 ∧
      (rawTail (next :: before) = 1 ∨ rawTail (next :: before) = rawTail before + 1) := by
    cases before with
    | nil => exact ⟨rfl, .inl rfl⟩
    | cons last front =>
      by_cases same : next = last
      · subst same
        have full := idle.run next next rfl rfl rfl
        have one : runLength (next :: next :: front) % 128 = 1 := by
          rw [runLength_same]
          omega
        exact ⟨one, .inl (by rw [rawTail_same, if_pos one])⟩
      · exact ⟨by rw [runLength_other front same], .inr (rawTail_other front same)⟩
  refine ⟨le_refl 1, by decide, counts.1, fun _ => ?_, fun _ => ?_, by omega, by omega⟩
  · rcases counts.2 with one | more
    · exact .inl one
    rcases idle.short with zero | two
    · exact .inl (by omega)
    · refine .inr fun none => ?_
      rw [none] at two
      simp at two
  · rcases counts.2 with one | more
    · exact .inl (by omega)
    rcases idle.aligned with zero | ⟨pixel, tail, shape⟩
    · exact .inl (by omega)
    · obtain ⟨rfl, rfl⟩ := List.cons.inj shape
      exact .inr rfl

variable {pixel : Pixel}

theorem Raw.repeated (raw : Raw 1 (pixel :: before) rest) : Run 2 (pixel :: pixel :: before) := by
  have two : runLength (pixel :: pixel :: before) % 128 = 2 := by
    have one := raw.run
    rw [runLength_same]
    omega
  refine ⟨le_refl 2, by decide, two, ?_⟩
  rw [rawTail_same, if_neg (by omega)]

theorem Raw.append (raw : Raw pktlen (prev :: before) (next :: rest)) (differ : prev ≠ next)
    (room : pktlen < 129) : Raw (pktlen + 1) (next :: prev :: before) rest := by
  have least := raw.least
  have more := rawTail_other before (Ne.symm differ)
  refine ⟨by omega, by omega, by rw [runLength_other before (Ne.symm differ)], by omega, by omega,
    fun _ => ?_, fun _ last other front shape => ?_⟩
  · by_cases one : pktlen = 1
    · rcases raw.aligned one with aligned | same
      · omega
      · exact absurd (Option.some_inj.mp same).symm differ
    · have longer := raw.longer (by omega)
      omega
  · obtain ⟨rfl, rfl, -⟩ := shape
    exact Ne.symm differ

theorem Raw.pushBack (raw : Raw pktlen (prev :: before) (next :: rest)) (two : 2 ≤ pktlen)
    (due : prev = next ∨ 129 ≤ pktlen) : Idle before (prev :: next :: rest) := by
  have longer := raw.longer two
  have most := raw.most
  refine ⟨fun none => by simp at none, .inr (by simp), ?_, ?_⟩
  · cases before with
    | nil => exact .inl rfl
    | cons other front =>
      have more := rawTail_other front (raw.differ two prev other front rfl)
      rcases due with rfl | full
      · exact .inr ⟨prev, rest, rfl⟩
      · exact .inl (by omega)
  · intro last first atEnd atStart same
    cases before with
    | nil => simp at atEnd
    | cons other front =>
      obtain rfl : other = last := by simpa using atEnd
      obtain rfl : prev = first := by simpa using atStart
      exact absurd same.symm (raw.differ two prev other front rfl)

theorem Run.extend (run : Run pktlen (pixel :: before)) (room : pktlen < 128) :
    Run (pktlen + 1) (pixel :: pixel :: before) := by
  have least := run.least
  have count : runLength (pixel :: pixel :: before) % 128 = (pktlen + 1) % 128 := by
    have same := run.run
    rw [runLength_same]
    omega
  refine ⟨by omega, by omega, count, ?_⟩
  rw [rawTail_same, if_neg (by omega)]

theorem Run.finish (run : Run pktlen (prev :: before)) (due : prev ≠ next ∨ 128 ≤ pktlen) :
    Idle (prev :: before) (next :: rest) := by
  have most := run.most
  refine ⟨fun none => by simp at none, .inl run.tail, .inl (by rw [run.tail]), ?_⟩
  intro last first atEnd atStart same
  obtain rfl : prev = last := by simpa using atEnd
  obtain rfl : next = first := by simpa using atStart
  have same' := run.run
  rcases due with differ | full
  · exact absurd same differ
  · omega

/-- Decreases in every turn. -/
def Compressor.work (s : Compressor) : Nat := 3 * s.rest.length + 2 * s.pktlen

def Proceeds (data : List Pixel) (s : Compressor) (next : Pixel) (rest : List Pixel) : Prop :=
  ∃ after packets, compressStep s next rest = some after ∧ Holding data after packets ∧
    after.work < s.work

theorem write_raw (len : Nat) (data : List Pixel) (least : 1 ≤ len) (most : len ≤ 128)
    (held : len ≤ data.length) :
    rleWritePkt .RAW len data = (Packet.raw (data.take len)).bytes := by
  rw [rleWritePkt, if_neg (by omega), if_neg (by simp), Packet.bytes, length_take, min_eq_left held]

theorem write_run (len : Nat) (pixel : Pixel) (least : 2 ≤ len) (most : len ≤ 128) :
    rleWritePkt .RLE len [pixel] = (Packet.run len pixel).bytes := by
  rw [rleWritePkt, if_neg (by omega), if_pos rfl, if_neg (by omega), Packet.bytes, headD_cons]

theorem written {file : Text} {packet : Packet} (holds : file = packets.flatMap Packet.bytes)
    (sized : ∀ packet ∈ packets, packet.Sized) (size : packet.Sized) :
    file ++ packet.bytes = (packets ++ [packet]).flatMap Packet.bytes ∧
      (∀ other ∈ packets ++ [packet], other.Sized) ∧
      (packets ++ [packet]).flatMap Packet.covers =
        packets.flatMap Packet.covers ++ packet.covers := by
  refine ⟨by simp [holds], fun other member => ?_, by simp⟩
  rcases mem_append.mp member with earlier | last
  · exact sized other earlier
  · exact mem_singleton.mp last ▸ size

variable {s : Compressor}

theorem step_idle (holding : Holding data s packets) (shape : s.rest = next :: rest)
    (empty : s.pktlen = 0) (all : s.before.reverse = packets.flatMap Packet.covers)
    (idle : Idle s.before s.rest) : Proceeds data s next rest := by
  rw [shape] at idle
  refine ⟨{ s with
      pkttype := .RAW, pktlen := 1, pktdata := [next], before := next :: s.before,
      rest := rest }, packets, by rw [compressStep, if_pos empty],
    ⟨holding.file, holding.sized, ?_, ?_⟩, ?_⟩
  · have whole := holding.whole
    rw [shape] at whole
    simpa using whole
  · exact .raw rfl rfl (by simp [all]) idle.start
  · simp only [Compressor.work, shape, empty, length_cons]
    omega

theorem last_pixel {done packet : List Pixel} (all : before.reverse = done ++ packet)
    (some_pixel : packet ≠ []) : ∃ prev front, before = prev :: front ∧
      packet = packet.dropLast ++ [prev] ∧ front.reverse = done ++ packet.dropLast := by
  cases before with
  | nil => simp [some_pixel] at all
  | cons prev front =>
    rw [reverse_cons, ← dropLast_append_getLast some_pixel, ← append_assoc] at all
    obtain ⟨fronts, same⟩ := append_inj' all rfl
    exact ⟨prev, front, rfl, by rw [same, dropLast_append_getLast some_pixel], fronts⟩

section
variable (holding : Holding data s packets) (shape : s.rest = next :: rest)
include holding shape

theorem step_raw (type : s.pkttype = .RAW) (length : s.pktdata.length = s.pktlen)
    (all : s.before.reverse = packets.flatMap Packet.covers ++ s.pktdata)
    (raw : Raw s.pktlen s.before s.rest) : Proceeds data s next rest := by
  have least := raw.least
  have most := raw.most
  have some_pixel : s.pktdata ≠ [] := fun none => by rw [none] at length; simp at length; omega
  obtain ⟨prev, front, before, packet, fronts⟩ := last_pixel all some_pixel
  have whole := holding.whole
  rw [shape, before] at raw
  rw [shape, before, reverse_cons, append_assoc] at whole
  have step : compressStep s next rest = some (extendPkt s prev next rest) := by
    rw [compressStep, if_neg (by omega), before]
    rfl
  refine ⟨extendPkt s prev next rest, ?_⟩
  by_cases repeated : s.pktlen = 1 ∧ prev = next
  · -- the packet becomes an RLE packet
    obtain ⟨one, rfl⟩ := repeated
    have only : s.pktdata = [prev] := by
      obtain ⟨pixel, single⟩ := length_eq_one_iff.mp (length.trans one)
      simpa [single] using packet
    have extended : extendPkt s prev prev rest = { s with
        pkttype := .RLE, pktlen := s.pktlen + 1, before := prev :: s.before, rest := rest } := by
      simp only [extendPkt, one, true_and, if_true]
      rw [if_neg (by simp)]
    refine ⟨packets, step, ?_, ?_⟩
    · rw [extended]
      refine ⟨holding.file, holding.sized, by simpa [before] using whole, ?_⟩
      rw [one] at raw
      refine .run rfl prev only ?_ ?_
      · simp [all, only, one, replicate_succ]
      · simpa [one, before] using raw.repeated
    · rw [extended]
      simp only [Compressor.work, shape, length_cons]
      omega
  by_cases due : prev = next ∨ 129 ≤ s.pktlen
  · -- the packet is written without its last pixel
    have two : 2 ≤ s.pktlen := by
      rcases due with same | full
      · by_contra small
        exact repeated ⟨by omega, same⟩
      · omega
    have extended : extendPkt s prev next rest = { s with
        before := front, rest := prev :: s.rest, pktlen := 0,
        file := s.file ++ (Packet.raw s.pktdata.dropLast).bytes } := by
      simp only [extendPkt, if_neg repeated, type, reduceCtorEq, if_false, if_pos due]
      rw [write_raw _ _ (by omega) (by omega) (by omega), before, tail_cons,
        dropLast_eq_take, length]
    have size : (Packet.raw s.pktdata.dropLast).Sized := by
      rw [Packet.Sized, Packet.covers, length_dropLast, length]
      omega
    obtain ⟨file, sized, covers⟩ := written holding.file holding.sized size
    refine ⟨packets ++ [.raw s.pktdata.dropLast], step, ?_, ?_⟩
    · rw [extended]
      refine ⟨file, sized, by simpa [shape] using whole, ?_⟩
      rw [covers]
      exact .idle rfl fronts (shape ▸ raw.pushBack two due)
    · rw [extended]
      simp only [Compressor.work, length_cons]
      omega
  · have differ : prev ≠ next := fun same => due (.inl same)
    have extended : extendPkt s prev next rest = { s with
        pktdata := s.pktdata ++ [next], pktlen := s.pktlen + 1, before := next :: s.before,
        rest := rest } := by
      simp only [extendPkt, if_neg repeated, type, reduceCtorEq, if_false, if_neg due]
    refine ⟨packets, step, ?_, ?_⟩
    · rw [extended]
      refine ⟨holding.file, holding.sized, by simpa [before] using whole, ?_⟩
      refine .raw type (by simp [length]) (by simp [all]) ?_
      simpa [before] using raw.append differ (by omega)
    · rw [extended]
      simp only [Compressor.work, shape, length_cons]
      omega

theorem step_run (type : s.pkttype = .RLE) (pixel : Pixel) (single : s.pktdata = [pixel])
    (all : s.before.reverse = packets.flatMap Packet.covers ++ replicate s.pktlen pixel)
    (run : Run s.pktlen s.before) : Proceeds data s next rest := by
  have least := run.least
  have most := run.most
  obtain ⟨prev, front, before, packet, fronts⟩ := last_pixel all (by
    intro none
    have := congrArg List.length none
    simp at this
    omega)
  obtain rfl : prev = pixel := by
    have member : prev ∈ replicate s.pktlen pixel := by
      rw [packet]
      simp
    exact (mem_replicate.mp member).2
  have whole := holding.whole
  rw [before] at run
  rw [shape] at whole
  have step : compressStep s next rest = some (extendPkt s prev next rest) := by
    rw [compressStep, if_neg (by omega), before]
    rfl
  refine ⟨extendPkt s prev next rest, ?_⟩
  by_cases due : prev ≠ next ∨ 128 ≤ s.pktlen
  · have extended : extendPkt s prev next rest = { s with
        file := s.file ++ (Packet.run s.pktlen prev).bytes, pktlen := 0 } := by
      simp only [extendPkt, type, ite_self, if_true, if_pos due]
      rw [single, write_run _ _ least most]
    have size : (Packet.run s.pktlen prev).Sized := by
      rw [Packet.Sized, Packet.covers, length_replicate]
      omega
    obtain ⟨file, sized, covers⟩ := written holding.file holding.sized size
    refine ⟨packets ++ [.run s.pktlen prev], step, ?_, ?_⟩
    · rw [extended]
      refine ⟨file, sized, by simpa [shape] using whole, ?_⟩
      rw [covers]
      refine .idle rfl all ?_
      simpa [before, shape] using run.finish due
    · rw [extended]
      simp only [Compressor.work]
      omega
  · rw [not_or, not_not, not_le] at due
    obtain ⟨rfl, room⟩ := due
    have extended : extendPkt s prev prev rest = { s with
        pktlen := s.pktlen + 1, before := prev :: s.before, rest := rest } := by
      simp only [extendPkt, type, ite_self, if_true]
      rw [if_neg (by simpa using room)]
    refine ⟨packets, step, ?_, ?_⟩
    · rw [extended]
      refine ⟨holding.file, holding.sized, by simpa using whole, ?_⟩
      refine .run type prev single ?_ (before ▸ run.extend room)
      rw [reverse_cons, all, append_assoc, ← replicate_succ']
    · rw [extended]
      simp only [Compressor.work, shape, length_cons]
      omega

theorem step_proceeds :
    Proceeds data s next rest := by
  cases holding.pending with
  | idle empty all idle => exact step_idle holding shape empty all idle
  | raw type length all raw => exact step_raw holding shape type length all raw
  | run type pixel single all run => exact step_run holding shape type pixel single all run

end

theorem loop_ends (fuel : Nat) (s : Compressor) (packets : List Packet)
    (holding : Holding data s packets) (enough : s.work < fuel) :
    ∃ last packets, compressLoop fuel s = some last ∧ last.rest = [] ∧
      Holding data last packets := by
  induction fuel generalizing s packets with
  | zero => omega
  | succ fuel ih =>
    cases shape : s.rest with
    | nil => exact ⟨s, packets, by simp [compressLoop, shape], shape, holding⟩
    | cons next rest =>
      obtain ⟨after, packets', step, next_holding, less⟩ := step_proceeds holding shape
      obtain ⟨last, packets'', run, ended, held⟩ := ih after packets' next_holding (by omega)
      refine ⟨last, packets'', ?_, ended, held⟩
      simp only [compressLoop, shape, step, Option.bind_some, run]

/-- The file of an image that is not too large: all pixels are in packets, or those of a last
packet that is too long are missing. -/
structure Written (img : TgaImg) (packets : List Packet) : Prop where
  result : rleCompress img = some (0, packets.flatMap Packet.bytes)
  sized : ∀ packet ∈ packets, packet.Sized
  whole : ¬Overfull img.data → packets.flatMap Packet.covers = img.data
  lost : Overfull img.data → ∃ lost, lost ≠ [] ∧ packets.flatMap Packet.covers ++ lost = img.data

variable (img : TgaImg)

theorem compress_written (small : img.bufsize < 2 ^ 31) : ∃ packets, Written img packets := by
  have start : Holding img.data ⟨.RAW, 0, [], [], img.data, []⟩ [] :=
    ⟨rfl, by simp, rfl, .idle rfl rfl ⟨fun _ => rfl, .inl rfl, .inl rfl, by simp⟩⟩
  obtain ⟨last, packets, run, ended, held⟩ := loop_ends (3 * img.data.length + 1) _ [] start
    (by simp [Compressor.work])
  have result : rleCompress img = some (0, last.file ++
      if last.pktlen ≠ 0 then rleWritePkt last.pkttype last.pktlen last.pktdata else []) := by
    rw [rleCompress, if_neg img.supported, if_neg (by simpa [TgaImg.bufsize] using small), run]
    rfl
  have whole := held.whole
  rw [ended, append_nil] at whole
  have backwards : img.data.reverse = last.before := by rw [← whole, reverse_reverse]
  rw [held.file] at result
  cases held.pending with
  | idle empty all idle =>
    have nothing : last.before = [] := idle.ended ended
    rw [if_neg (by simpa using empty), append_nil] at result
    have fine : ¬Overfull img.data := by
      rw [Overfull, backwards, nothing]
      simp [rawTail]
    exact ⟨packets, result, held.sized, fun _ => by rw [← all, whole],
      fun overfull => absurd overfull fine⟩
  | raw type length all raw =>
    have least := raw.least
    have most := raw.most
    rw [if_pos (by omega), type] at result
    have total : packets.flatMap Packet.covers ++ last.pktdata = img.data := by rw [← all, whole]
    by_cases full : last.pktlen = 129
    · have overfull : Overfull img.data := by
        have longer := raw.longer (by omega)
        rw [Overfull, backwards]
        omega
      rw [full, rleWritePkt, if_pos (by decide), append_nil] at result
      refine ⟨packets, result, held.sized, fun fine => absurd overfull fine, fun _ => ?_⟩
      refine ⟨last.pktdata, fun none => ?_, total⟩
      rw [none] at length
      simp at length
      omega
    have fine : ¬Overfull img.data := by
      rw [Overfull, backwards]
      by_cases one : last.pktlen = 1
      · have alone := raw.alone one
        rw [ended] at alone
        simp only [ne_eq, not_true_eq_false, or_false] at alone
        omega
      · have longer := raw.longer (by omega)
        omega
    have size : (Packet.raw last.pktdata).Sized := by
      rw [Packet.Sized, Packet.covers, length]
      omega
    rw [write_raw _ _ least (by omega) (by omega), ← length, take_length] at result
    obtain ⟨file, sized, covers⟩ := written rfl held.sized size
    rw [file] at result
    exact ⟨_, result, sized, fun _ => covers.trans total, fun overfull => absurd overfull fine⟩
  | run type pixel single all run =>
    have least := run.least
    have most := run.most
    have fine : ¬Overfull img.data := by
      rw [Overfull, backwards, run.tail]
      omega
    have size : (Packet.run last.pktlen pixel).Sized := by
      rw [Packet.Sized, Packet.covers, length_replicate]
      omega
    rw [if_pos (by omega), type, single, write_run _ _ least most] at result
    obtain ⟨file, sized, covers⟩ := written rfl held.sized size
    rw [file] at result
    refine ⟨_, result, sized, fun _ => ?_, fun overfull => absurd overfull fine⟩
    rw [covers, Packet.covers, ← all, whole]

/-! The decoder. -/

theorem count_raw : ∀ count < 128, UInt8.ofNat count &&& 0x80 = 0 ∧
    (UInt8.ofNat count &&& 0x7f).toNat = count := by
  decide +kernel

theorem count_run : ∀ count < 128, UInt8.ofNat (0x80 ||| count) &&& 0x80 ≠ 0 ∧
    (UInt8.ofNat (0x80 ||| count) &&& 0x7f).toNat = count := by
  decide +kernel

theorem overwrite_next (written space bytes : Text) :
    overwrite (written ++ space) written.length bytes =
      written ++ bytes ++ space.drop bytes.length := by
  rw [overwrite, take_left, drop_length_add_append]

theorem flatten_length (pixels : List Pixel) (pixelsize : Nat)
    (sized : ∀ pixel ∈ pixels, pixel.length = pixelsize) :
    pixels.flatten.length = pixels.length * pixelsize := by
  induction pixels with
  | nil => simp
  | cons pixel rest ih =>
    have later := ih fun other member => sized other (mem_cons_of_mem pixel member)
    have first := sized pixel mem_cons_self
    rw [flatten_cons, length_append, later, first, length_cons]
    ring

/-- A decoder that has filled the buffer up to `space`. -/
def filledTo (file written space temp : Text) : Decoder :=
  ⟨file, written ++ space, written.length, temp⟩

theorem read_packet (packet : Packet) (pixelsize : Nat) (behind written space temp : Text)
    (size : packet.Sized) (sized : ∀ pixel ∈ packet.covers, pixel.length = pixelsize)
    (tempSize : temp.length = 8) (pixelSize : pixelsize ≤ 8) :
    ∃ pt file temp', packet.bytes ++ behind = pt :: file ∧
      (pt &&& 0x7f).toNat + 1 = packet.covers.length ∧ temp'.length = 8 ∧
      readPacket (filledTo (pt :: file) written space temp) pt file packet.covers.length pixelsize =
        filledTo behind (written ++ packet.covers.flatten)
          (space.drop packet.covers.flatten.length) temp' := by
  obtain ⟨least, most⟩ := size
  have total := flatten_length packet.covers pixelsize sized
  cases packet with
  | raw pixels =>
    simp only [Packet.covers] at least most sized total ⊢
    obtain ⟨plain, count⟩ := count_raw (pixels.length - 1) (by omega)
    refine ⟨_, pixels.flatten ++ behind, temp, rfl, by omega, tempSize, ?_⟩
    simp only [readPacket, filledTo, plain, if_true, ← total, take_left, drop_left,
      overwrite_next, length_append]
  | run count pixel =>
    simp only [Packet.covers, length_replicate] at least most sized total ⊢
    have length : pixel.length = pixelsize := sized pixel (mem_replicate.mpr ⟨by omega, rfl⟩)
    obtain ⟨marked, found⟩ := count_run (count - 1) (by omega)
    have kept : overwrite temp 0 pixel = pixel ++ temp.drop pixelsize := by
      rw [overwrite, take_zero, nil_append, zero_add, length]
    refine ⟨_, pixel ++ behind, pixel ++ temp.drop pixelsize, rfl, by omega, ?_, ?_⟩
    · rw [length_append, length_drop]
      omega
    · simp only [readPacket, filledTo, if_neg marked, ← length, take_left, drop_left]
      simp only [kept, take_left, overwrite_next, length_append]
      rw [total, length]

theorem decode_packets (packets : List Packet) (pixelsize fuel : Nat)
    (behind written space temp : Text) (size : ∀ packet ∈ packets, packet.Sized)
    (sized : ∀ pixel ∈ packets.flatMap Packet.covers, pixel.length = pixelsize)
    (tempSize : temp.length = 8) (least : 1 ≤ pixelsize) (most : pixelsize ≤ 8)
    (room : (packets.flatMap Packet.covers).flatten.length ≤ space.length)
    (small : written.length + space.length < 2 ^ 31) (enough : packets.length ≤ fuel) :
    ∃ temp', decompressLoop (written.length + space.length) pixelsize fuel
        (filledTo (packets.flatMap Packet.bytes ++ behind) written space temp) =
      decompressLoop (written.length + space.length) pixelsize (fuel - packets.length)
        (filledTo behind (written ++ (packets.flatMap Packet.covers).flatten)
          (space.drop (packets.flatMap Packet.covers).flatten.length) temp') := by
  induction packets generalizing written space temp fuel with
  | nil => exact ⟨temp, by simp⟩
  | cons packet rest ih =>
    obtain ⟨fuel, rfl⟩ : ∃ less, fuel = less + 1 := ⟨fuel - 1, by rw [length_cons] at enough; omega⟩
    have own : ∀ pixel ∈ packet.covers, pixel.length = pixelsize :=
      fun pixel member => sized pixel (by simp [member])
    have total := flatten_length packet.covers pixelsize own
    obtain ⟨one, -⟩ := size packet mem_cons_self
    simp only [flatMap_cons, flatten_append, length_append] at room
    obtain ⟨pt, file, temp', bytes, count, tempSize', read⟩ := read_packet packet pixelsize
      (rest.flatMap Packet.bytes ++ behind) written space temp
      (size packet mem_cons_self) own tempSize most
    have positive : 1 ≤ packet.covers.length * pixelsize := Nat.mul_pos one least
    have lengths : (written ++ packet.covers.flatten).length +
        (space.drop packet.covers.flatten.length).length = written.length + space.length := by
      simp only [length_append, length_drop]
      omega
    obtain ⟨last, run⟩ := ih fuel (written ++ packet.covers.flatten)
      (space.drop packet.covers.flatten.length) temp'
      (fun other member => size other (mem_cons_of_mem packet member))
      (fun pixel member => sized pixel (by rw [flatMap_cons]; simp [member]))
      tempSize' (by rw [length_drop]; omega) (by rw [lengths]; exact small)
      (by rw [length_cons] at enough; omega)
    refine ⟨last, ?_⟩
    rw [lengths] at run
    have turn : decompressLoop (written.length + space.length) pixelsize (fuel + 1)
        (filledTo (pt :: file) written space temp) =
        decompressLoop (written.length + space.length) pixelsize fuel
          (readPacket (filledTo (pt :: file) written space temp) pt file
            packet.covers.length pixelsize) := by
      rw [decompressLoop, if_pos (by simp only [filledTo]; omega)]
      simp only [filledTo, count]
      rw [if_neg (by omega), if_neg (by omega)]
    rw [flatMap_cons, append_assoc, bytes, turn, read, run, length_cons, Nat.add_sub_add_right,
      drop_drop, flatMap_cons, flatten_append, append_assoc, length_append]

/-! The result. -/

theorem pixelsize_bounds : 1 ≤ getpixelsize img.bpp ∧ getpixelsize img.bpp ≤ 8 := by
  have supported := img.supported
  unfold getpixelsize at supported ⊢
  repeat' split
  all_goals simp_all

theorem bufsize_eq : img.data.flatten.length = img.bufsize := by
  rw [flatten_length img.data _ img.pixels, img.sized, TgaImg.bufsize]

theorem packets_le (packets : List Packet) (sized : ∀ packet ∈ packets, packet.Sized) :
    packets.length ≤ (packets.flatMap Packet.covers).length := by
  induction packets with
  | nil => simp
  | cons packet rest ih =>
    have later := ih fun other member => sized other (mem_cons_of_mem packet member)
    have one := (sized packet mem_cons_self).1
    simp only [flatMap_cons, length_append, length_cons]
    omega

variable {img : TgaImg}

theorem decode_written {lost : List Pixel} (small : img.bufsize < 2 ^ 31)
    (sized : ∀ packet ∈ packets, packet.Sized)
    (covers : packets.flatMap Packet.covers ++ lost = img.data) (behind buf temp : Text)
    (bufSize : buf.length = img.bufsize) (tempSize : temp.length = 8) :
    ∃ fuel temp', rleDecompress (packets.flatMap Packet.bytes ++ behind) buf temp img.bufsize
        (getpixelsize img.bpp) =
      decompressLoop img.bufsize (getpixelsize img.bpp) (fuel + 1)
        (filledTo behind (packets.flatMap Packet.covers).flatten
          (buf.drop (packets.flatMap Packet.covers).flatten.length) temp') := by
  obtain ⟨least, most⟩ := pixelsize_bounds img
  have own : ∀ pixel ∈ packets.flatMap Packet.covers, pixel.length = getpixelsize img.bpp := by
    intro pixel member
    refine img.pixels pixel ?_
    rw [← covers]
    exact mem_append_left lost member
  have total := flatten_length _ _ own
  have whole := bufsize_eq img
  rw [← covers, flatten_append, length_append] at whole
  have few := packets_le packets sized
  have fewer : packets.length ≤ (packets.flatMap Packet.covers).flatten.length := by
    rw [total]
    exact few.trans (Nat.le_mul_of_pos_right _ least)
  obtain ⟨temp', run⟩ := decode_packets packets (getpixelsize img.bpp) (img.bufsize + 1) behind []
    buf temp sized own tempSize least most (by omega)
    (by rw [length_nil]; omega) (by omega)
  rw [length_nil, Nat.zero_add, bufSize, nil_append] at run
  refine ⟨img.bufsize - packets.length, temp', ?_⟩
  rw [← Nat.sub_add_comm (by omega)]
  exact run

theorem restored (small : img.bufsize < 2 ^ 31) (fine : ¬Overfull img.data) :
    Restores img := by
  obtain ⟨packets, written⟩ := compress_written img small
  refine ⟨_, packets, written.result, rfl, written.sized,
    fun behind buf temp bufSize tempSize => ?_⟩
  have whole := written.whole fine
  obtain ⟨fuel, temp', run⟩ := decode_written small written.sized
    (by rw [whole]; exact append_nil img.data) behind buf temp bufSize tempSize
  rw [whole, bufsize_eq, ← bufSize, drop_length] at run
  refine ⟨filledTo behind img.data.flatten [] temp', ?_, by simp [filledTo], rfl⟩
  rw [bufSize] at run
  have full := bufsize_eq img
  rw [run, decompressLoop, if_neg (by simp only [filledTo]; omega)]

theorem not_restored (small : img.bufsize < 2 ^ 31) (overfull : Overfull img.data) :
    ¬Restores img := by
  rintro ⟨file, others, result, -, -, decodes⟩
  obtain ⟨packets, written⟩ := compress_written img small
  obtain ⟨lost, some_pixel, covers⟩ := written.lost overfull
  obtain rfl : packets.flatMap Packet.bytes = file := by
    simpa [written.result] using result
  obtain ⟨d, decoded, -, -⟩ := decodes [] img.data.flatten (replicate 8 0) (bufsize_eq img)
    length_replicate
  obtain ⟨fuel, temp', run⟩ := decode_written small written.sized covers [] img.data.flatten
    (replicate 8 0) (bufsize_eq img) length_replicate
  have missing : (packets.flatMap Packet.covers).flatten.length < img.bufsize := by
    have own : ∀ pixel ∈ lost, pixel.length = getpixelsize img.bpp := by
      intro pixel member
      refine img.pixels pixel ?_
      rw [← covers]
      exact mem_append_right _ member
    have total := flatten_length lost _ own
    have positive := mul_pos (length_pos_iff.mpr some_pixel) (pixelsize_bounds img).1
    rw [← bufsize_eq, ← covers, flatten_append, length_append]
    omega
  rw [run, decompressLoop, if_pos (by simpa [filledTo] using missing)] at decoded
  simp [filledTo] at decoded

/-- An image is restored from its file exactly when its size in bytes is an `int` and its end does
not leave 129 pixels to the last RAW packet. -/
theorem rle_restores (img : TgaImg) :
    Restores img ↔ img.bufsize < 2 ^ 31 ∧ ¬Overfull img.data := by
  constructor
  · intro restores
    have small : img.bufsize < 2 ^ 31 := by
      by_contra large
      obtain ⟨file, packets, result, -⟩ := restores
      rw [rleCompress, if_neg img.supported,
        if_pos (by simpa [TgaImg.bufsize] using large)] at result
      simp at result
    exact ⟨small, fun overfull => not_restored small overfull restores⟩
  · rintro ⟨small, fine⟩
    exact restored small fine

def ramp : TgaImg where
  width := 129
  height := 1
  bpp := 8
  data := (range 129).map fun value => [UInt8.ofNat value]
  supported := by decide
  sized := by simp
  pixels := by
    intro pixel member
    obtain ⟨value, -, rfl⟩ := List.mem_map.mp member
    rfl

/-- The only packet has 129 pixels and is not written. -/
theorem ramp_lost : rleCompress ramp = some (0, []) ∧ ¬Restores ramp := by
  refine ⟨by decide +kernel, not_restored (by decide) ?_⟩
  have overfull : 129 ≤ rawTail ramp.data.reverse ∧ rawTail ramp.data.reverse % 128 = 1 := by
    decide +kernel
  exact overfull

end Pvpgn.TgaRle
