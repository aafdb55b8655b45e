import Pvpgn.CharBuffer
import Pvpgn.Stdio

/-!
The packet that servers send to a tracker, as it lies in the receive buffer, and `fixup_str`, which
takes the separator of the tracker's file out of its texts. A read or a write outside the buffer is
`none`.
-/

namespace Pvpgn.TrackPacket
open Stdio CheckedArray CharBuffer List Option

structure Field where
  offset : Nat
  size : Nat

def packetVersion : Field := ⟨0, 2⟩
def port : Field := ⟨2, 2⟩
def flags : Field := ⟨4, 4⟩
def software : Field := ⟨8, 32⟩
def version : Field := ⟨40, 16⟩
def platform : Field := ⟨56, 32⟩
def serverDesc : Field := ⟨88, 64⟩
def serverLocation : Field := ⟨152, 64⟩
def serverUrl : Field := ⟨216, 96⟩
def contactName : Field := ⟨312, 64⟩
def contactEmail : Field := ⟨376, 64⟩
def users : Field := ⟨440, 4⟩
def channels : Field := ⟨444, 4⟩
def games : Field := ⟨448, 4⟩
def uptime : Field := ⟨452, 4⟩
def totalGames : Field := ⟨456, 4⟩
def totalLogins : Field := ⟨460, 4⟩

/-- `sizeof(t_trackpacket)` -/
def packetSize : Nat := 464

def trackVersion : UInt16 := 2

def shutdownFlag : UInt32 := 1

def slice (packet : Text) (field : Field) : Text := (packet.drop field.offset).take field.size

def bnShortNget (src : Text) : UInt16 := (src.getD 1 0).toUInt16 ||| (src.getD 0 0).toUInt16 <<< 8

def bnIntNget (src : Text) : UInt32 :=
  (src.getD 3 0).toUInt32 ||| (src.getD 2 0).toUInt32 <<< 8 ||| (src.getD 1 0).toUInt32 <<< 16 |||
    (src.getD 0 0).toUInt32 <<< 24

/-- The string that starts at a field. Nothing but its NUL ends it. -/
def textAt (packet : Text) (field : Field) : Option Text := stringAt (packet.drop field.offset)

/-- `recvfrom` cuts a longer datagram and leaves what lies behind a shorter one. -/
def recvfrom (packet datagram : Text) : Text :=
  datagram.take packetSize ++ packet.drop datagram.length

-- The comma in the condition of the loop throws its comparison with `size` away.
def fixupStr : UInt8 → Text → Option Text
  | _, [] => none
  | prev, byte :: rest =>
    if byte = 0 then some (byte :: rest)
    else
      let byte := if prev = 35 ∧ byte = 35 then 37 else byte
      (fixupStr byte rest).map (byte :: ·)

/-- The NUL at the end of a field, and then its fixup. -/
def fixupField (packet : Text) (field : Field) : Option Text := do
  let packet ← writeAt packet (field.offset + field.size - 1) 0
  let fixed ← fixupStr 0 (packet.drop field.offset)
  some (packet.take field.offset ++ fixed)

def textFields : List Field :=
  [software, version, platform, serverDesc, serverLocation, serverUrl, contactName, contactEmail]

def fixups (packet : Text) : Option Text := textFields.foldlM fixupField packet

/-- No two separators stand side by side. -/
def NoPair (content : Text) : Prop := content.IsChain fun left right => ¬(left = 35 ∧ right = 35)

def Neat (bytes : Text) : Prop :=
  ∃ content rest, bytes = content ++ 0 :: rest ∧ 0 ∉ content ∧ NoPair content

def Apart (left right : Field) : Prop :=
  left.offset + left.size ≤ right.offset ∨ right.offset + right.size ≤ left.offset

def Inside (field : Field) : Prop := 0 < field.size ∧ field.offset + field.size ≤ packetSize

/-! One text. -/

-- Induction on the text; `prev` is the byte before it as it was written.
theorem fixup_str_neat (content rest : Text) (prev : UInt8) (nulFree : 0 ∉ content) :
    ∃ fixed, fixupStr prev (content ++ 0 :: rest) = some (fixed ++ 0 :: rest) ∧
      fixed.length = content.length ∧ 0 ∉ fixed ∧
      (prev :: fixed).IsChain fun left right => ¬(left = 35 ∧ right = 35) := by
  induction content generalizing prev with
  | nil => exact ⟨[], by simp [fixupStr], rfl, by simp, by simp⟩
  | cons byte content ih =>
    obtain ⟨nonzero, free⟩ := not_or.mp (mem_cons.not.mp nulFree)
    have head : byte ≠ 0 := fun same => nonzero same.symm
    let written : UInt8 := if prev = 35 ∧ byte = 35 then 37 else byte
    obtain ⟨fixed, run, length, clean, chain⟩ := ih written free
    have kept : written ≠ 0 := by
      simp only [written]
      split
      · decide
      · exact head
    have apart : ¬(prev = 35 ∧ written = 35) := by
      simp only [written]
      split
      · rintro ⟨_, same⟩
        exact absurd same (by decide)
      · assumption
    refine ⟨written :: fixed, ?_, by simp [length], ?_, ?_⟩
    · rw [cons_append, fixupStr, if_neg head]
      simp only [run, map_some, cons_append, written]
    · exact mem_cons.not.mpr (not_or.mpr ⟨fun same => kept same.symm, clean⟩)
    · exact isChain_cons_cons.mpr ⟨apart, chain⟩

example : fixupStr 0 (text "a###b" ++ [0, 35, 35]) = some (text "a#%#b" ++ [0, 35, 35]) := by
  decide +kernel

theorem first_nul (bytes : Text) (present : 0 ∈ bytes) :
    ∃ content rest, bytes = content ++ 0 :: rest ∧ 0 ∉ content := by
  obtain ⟨content, rest, split, first⟩ := eq_append_cons_of_mem present
  exact ⟨content, rest, split, first⟩

variable (packet front middle : Text)

variable (back datagram : Text) (field : Field)

theorem fixup_field_parts (starts : front.length = field.offset)
    (sized : middle.length = field.size) (nonempty : 0 < field.size) :
    ∃ fixed, fixupField (front ++ (middle ++ back)) field = some (front ++ (fixed ++ back)) ∧
      fixed.length = middle.length ∧ Neat fixed := by
  have ended : (front ++ (middle ++ back)).set (field.offset + field.size - 1) 0 =
      front ++ (middle.set (field.size - 1) 0 ++ back) := by
    rw [set_append_right _ _ (by omega), set_append_left _ _ (by omega)]
    congr 3
    omega
  have present : 0 ∈ middle.set (field.size - 1) 0 := mem_set (by omega) _
  obtain ⟨content, rest, split, nulFree⟩ := first_nul _ present
  obtain ⟨fixed, run, length, clean, chain⟩ := fixup_str_neat content (rest ++ back) 0 nulFree
  have room : field.offset + field.size - 1 < (front ++ (middle ++ back)).length := by
    simp only [length_append]
    omega
  have written : writeAt (front ++ (middle ++ back)) (field.offset + field.size - 1) 0 =
      some (front ++ (middle.set (field.size - 1) 0 ++ back)) := by
    rw [writeAt, if_pos room, ended]
  refine ⟨fixed ++ 0 :: rest, ?_, ?_, fixed, rest, rfl, clean, chain.of_cons⟩
  · rw [fixupField, written, split, ← starts]
    simp only [bind_eq_bind, bind_some, drop_left, take_left, append_assoc, cons_append, run]
  · have whole := congrArg List.length split
    simp only [length_set, length_append, length_cons] at whole ⊢
    omega

/-! Fields that do not overlap. -/

theorem slice_parts (inside : field.offset + field.size ≤ packet.length) :
    ∃ front back, packet = front ++ (slice packet field ++ back) ∧ front.length = field.offset ∧
      (slice packet field).length = field.size := by
  refine ⟨packet.take field.offset, (packet.drop field.offset).drop field.size, ?_, ?_, ?_⟩
  · rw [slice, take_append_drop, take_append_drop]
  · rw [length_take]
    omega
  · rw [slice, length_take, length_drop]
    omega

theorem slice_middle (starts : front.length = field.offset) (sized : middle.length = field.size) :
    slice (front ++ (middle ++ back)) field = middle := by
  rw [slice, ← starts, drop_left, ← sized, take_left]

theorem slice_apart (fixed back : Text) (field other : Field) (starts : front.length = field.offset)
    (sized : middle.length = field.size) (same : fixed.length = middle.length)
    (apart : Apart other field) :
    slice (front ++ (fixed ++ back)) other = slice (front ++ (middle ++ back)) other := by
  rcases apart with before | behind
  · have within (tail : Text) : slice (front ++ tail) other = slice front other := by
      rw [slice, slice, drop_append_of_le_length (by omega),
        take_append_of_le_length (by rw [length_drop]; omega)]
    rw [within, within]
  have past (part : Text) (length : part.length = field.size) :
      slice (front ++ (part ++ back)) other =
        (back.drop (other.offset - (field.offset + field.size))).take other.size := by
    rw [slice, ← append_assoc, drop_append, drop_eq_nil_of_le, nil_append]
    · congr 2
      rw [length_append]
      omega
    · rw [length_append]
      omega
  rw [past fixed (same.trans sized), past middle sized]

-- Induction on the fields that are still to be fixed.
theorem fixup_fields (fields : List Field) (separate : fields.Pairwise fun left right =>
    Apart left right) (inside : ∀ field ∈ fields, Inside field) (packet : Text)
    (whole : packet.length = packetSize) :
    ∃ fixed, fields.foldlM fixupField packet = some fixed ∧ fixed.length = packetSize ∧
      (∀ field ∈ fields, Neat (slice fixed field)) ∧
      ∀ other, (∀ field ∈ fields, Apart other field) → slice fixed other = slice packet other := by
  induction fields generalizing packet with
  | nil => exact ⟨packet, rfl, whole, by simp, fun _ _ => rfl⟩
  | cons field rest ih =>
    obtain ⟨firstApart, restApart⟩ := pairwise_cons.mp separate
    obtain ⟨nonempty, fits⟩ := inside field mem_cons_self
    obtain ⟨front, back, split, starts, sized⟩ := slice_parts packet field (by omega)
    obtain ⟨middle, run, length, neat⟩ :=
      fixup_field_parts front (slice packet field) back field starts sized nonempty
    rw [← split] at run
    have next : (front ++ (middle ++ back)).length = packetSize := by
      have count := congrArg List.length split
      simp only [length_append] at count ⊢
      omega
    obtain ⟨fixed, loop, fixedWhole, neats, others⟩ := ih restApart
      (fun other member => inside other (mem_cons_of_mem _ member)) _ next
    refine ⟨fixed, ?_, fixedWhole, ?_, ?_⟩
    · simp only [foldlM_cons, run, bind_eq_bind, bind_some, loop]
    · intro other member
      rcases mem_cons.mp member with rfl | later
      · rw [others _ firstApart, slice_middle front middle back _ starts (length.trans sized)]
        exact neat
      · exact neats other later
    · intro other apart
      rw [others other fun later member => apart later (mem_cons_of_mem _ member),
        slice_apart front (slice packet field) middle back field other starts sized length
          (apart field mem_cons_self), ← split]

theorem text_fields_separate : textFields.Pairwise fun left right => Apart left right := by
  simp [textFields, Apart, software, version, platform, serverDesc, serverLocation, serverUrl,
    contactName, contactEmail]

theorem text_fields_inside : ∀ field ∈ textFields, Inside field := by
  simp [textFields, Inside, packetSize, software, version, platform, serverDesc, serverLocation,
    serverUrl, contactName, contactEmail]

/-- The fixups of a packet end. Its texts are strings without a separator afterwards, and what is
no text is as it was. -/
theorem fixups_neat (whole : packet.length = packetSize) :
    ∃ fixed, fixups packet = some fixed ∧ fixed.length = packetSize ∧
      (∀ field ∈ textFields, Neat (slice fixed field)) ∧
      ∀ other, (∀ field ∈ textFields, Apart other field) → slice fixed other = slice packet other :=
  fixup_fields textFields text_fields_separate text_fields_inside packet whole

theorem text_at_neat (neat : Neat (slice packet field)) :
    ∃ content, textAt packet field = some content ∧ NoPair content := by
  obtain ⟨content, rest, split, nulFree, plain⟩ := neat
  refine ⟨content, ?_, plain⟩
  have parts : packet.drop field.offset =
      content ++ 0 :: (rest ++ (packet.drop field.offset).drop field.size) := by
    conv_lhs => rw [← take_append_drop field.size (packet.drop field.offset)]
    rw [slice] at split
    rw [split, append_assoc, cons_append]
  rw [textAt, parts]
  exact string_written content _ nulFree

/-! What is received. -/

theorem recvfrom_length (whole : packet.length = packetSize) :
    (recvfrom packet datagram).length = packetSize := by
  simp only [recvfrom, length_append, length_take, length_drop]
  omega

theorem recvfrom_whole (datagram : Text) (buffer : packet.length = packetSize)
    (whole : packetSize ≤ datagram.length) :
    recvfrom packet datagram = datagram.take packetSize := by
  rw [recvfrom, drop_eq_nil_of_le (by omega), append_nil]

theorem slice_take (inside : Inside field) :
    slice (datagram.take packetSize) field = slice datagram field := by
  obtain ⟨_, fits⟩ := inside
  rw [slice, slice, drop_take, take_take, Nat.min_eq_left (by omega)]

end Pvpgn.TrackPacket
