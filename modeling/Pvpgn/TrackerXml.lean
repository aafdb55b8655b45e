import Mathlib.Data.List.Infix
import Pvpgn.TrackerFile

/-!
The file of the tracker as XML elements. Its texts are printed as they are; a reader of XML takes
them for character data with its markup, references and line ends.
-/

namespace Pvpgn.TrackerXml
open Stdio TextUtil TrackPacket TrackerFile List Option Prod

def tags : List Text :=
  [text "address", text "port", text "location", text "software", text "version", text "users",
    text "channels", text "games", text "description", text "platform", text "url",
    text "contact_name", text "contact_email", text "uptime", text "total_games", text "logins"]

def startTag (tag : Text) : Text := text "<" ++ tag ++ text ">"

def endTag (tag : Text) : Text := text "</" ++ tag ++ text ">"

/-- `"\t<tag>%s</tag>\n"` -/
def xmlElement (tag value : Text) : Text :=
  9 :: (startTag tag ++ (value ++ (endTag tag ++ [newline])))

def serverTag : Text := text "server"

def xmlRecord (record : Record) : Text :=
  startTag serverTag ++ newline ::
    (((tags.zip (values record)).flatMap fun element => xmlElement element.1 element.2) ++
      (endTag serverTag ++ [newline]))

/-! A reader of the elements. -/

def expect (expected input : Text) : Option Text :=
  if expected.isPrefixOf input then some (input.drop expected.length) else none

def xmlSpace (byte : UInt8) : Bool := byte = 32 || byte = 9 || byte = 10 || byte = 13

/-- A byte that a document may hold. What the bytes from 128 on stand for is up to its encoding. -/
def xmlChar (byte : UInt8) : Bool := byte = 9 || byte = 10 || byte = 13 || 32 ≤ byte

def cdataEnd : Text := text "]]>"

def entities : List (Text × UInt8) :=
  [(text "lt;", 60), (text "gt;", 62), (text "amp;", 38), (text "quot;", 34), (text "apos;", 39)]

/-- What stands behind an ampersand. -/
def reference (input : Text) : Option Text :=
  entities.findSome? fun entity => (expect entity.1 input).map (entity.2 :: ·)

def references (raw : Text) : Option Text :=
  match raw.splitOn 38 with
  | [] => none
  | first :: others => (others.mapM reference).map fun others => first ++ others.flatten

/-- A line ends with a newline for the reader, however it ends in the file. -/
def lineEnds : Text → Text
  | [] => []
  | byte :: rest =>
    if byte = 13 then if rest.head? = some 10 then lineEnds rest else 10 :: lineEnds rest
    else byte :: lineEnds rest

/-- Character data up to the next tag. -/
def xmlText (input : Text) : Option (Text × Text) :=
  let raw := input.takeWhile (· ≠ 60)
  if raw.all xmlChar ∧ ¬ cdataEnd <:+: raw then
    (references (lineEnds raw)).map fun content => (content, input.dropWhile (· ≠ 60))
  else none

def readElements : List Text → Text → Option (List Text × Text)
  | [], input => some ([], input)
  | tag :: rest, input => do
    let input ← expect (startTag tag) (input.dropWhile xmlSpace)
    let (value, input) ← xmlText input
    let input ← expect (endTag tag) input
    let (values, input) ← readElements rest input
    some (value :: values, input)

def readServer (input : Text) : Option (List Text × Text) := do
  let input ← expect (startTag serverTag) (input.dropWhile xmlSpace)
  let (values, input) ← readElements tags input
  let input ← expect (endTag serverTag) (input.dropWhile xmlSpace)
  some (values, input)

def readServers : Nat → Text → Option (List (List Text))
  | 0, input => if input.dropWhile xmlSpace = [] then some [] else none
  | rounds + 1, input =>
    if input.dropWhile xmlSpace = [] then some []
    else do
      let (values, input) ← readServer input
      let others ← readServers rounds input
      some (values :: others)

def xmlFields (file : Text) : Option (List (List Text)) := readServers file.length file

/-- A text that stands for itself in character data. -/
def XmlPlain (content : Text) : Prop :=
  (∀ byte ∈ content, xmlChar byte = true ∧ byte ≠ 60 ∧ byte ≠ 38 ∧ byte ≠ 13) ∧
    ¬ cdataEnd <:+: content

/-! The elements come back. -/

theorem expect_append (expected rest : Text) : expect expected (expected ++ rest) = some rest := by
  simp [expect]

variable (content : Text) (records : List Record)

theorem line_ends_plain (plain : ∀ byte ∈ content, byte ≠ 13) : lineEnds content = content := by
  induction content with
  | nil => rfl
  | cons byte rest ih =>
    rw [lineEnds, if_neg (plain byte mem_cons_self),
      ih fun other member => plain other (mem_cons_of_mem _ member)]

theorem xml_text_plain (rest : Text) (plain : XmlPlain content) :
    xmlText (content ++ 60 :: rest) = some (content, 60 :: rest) := by
  obtain ⟨bytes, unclosed⟩ := plain
  have inside : ∀ byte ∈ content, decide (byte ≠ 60) = true := by
    intro byte member
    simpa using (bytes byte member).2.1
  have taken : (content ++ 60 :: rest).takeWhile (· ≠ 60) = content := by
    rw [takeWhile_append_of_pos inside]
    simp
  have dropped : (content ++ 60 :: rest).dropWhile (· ≠ 60) = 60 :: rest := by
    rw [dropWhile_append_of_pos inside]
    simp
  have legal : content.all xmlChar = true :=
    List.all_eq_true.mpr fun byte member => (bytes byte member).1
  have whole : content.splitOn 38 = [content] :=
    splitOn_eq_singleton fun member => (bytes 38 member).2.2.1 rfl
  have decoded : references content = some content := by
    rw [references, whole]
    simp
  have ended := line_ends_plain content fun byte member => (bytes byte member).2.2.2
  simp only [xmlText, taken, dropped]
  rw [if_pos ⟨legal, unclosed⟩, ended, decoded, map_some]

theorem start_tag_head (tag rest : Text) :
    (startTag tag ++ rest).dropWhile xmlSpace = startTag tag ++ rest := by
  have bracket : text "<" = [60] := by decide
  simp [startTag, bracket, xmlSpace]

theorem end_tag_head (tag rest : Text) :
    endTag tag ++ rest = 60 :: (47 :: (tag ++ (text ">" ++ rest))) := by
  have bracket : text "</" = [60, 47] := by decide
  simp [endTag, bracket]

-- Induction on the elements; only white space lies before the first of them.
theorem read_elements (elements : List (Text × Text))
    (plain : ∀ element ∈ elements, XmlPlain element.2) (input rest : Text)
    (starts : input.dropWhile xmlSpace =
      (elements.flatMap (fun element => xmlElement element.1 element.2) ++ rest).dropWhile
        xmlSpace) :
    ∃ last, readElements (elements.map fst) input = some (elements.map snd, last) ∧
      last.dropWhile xmlSpace = rest.dropWhile xmlSpace := by
  induction elements generalizing input with
  | nil => exact ⟨input, rfl, starts⟩
  | cons element others ih =>
    obtain ⟨tag, value⟩ := element
    let tail := others.flatMap (fun element => xmlElement element.1 element.2) ++ rest
    have head : input.dropWhile xmlSpace =
        startTag tag ++ (value ++ (endTag tag ++ newline :: tail)) := by
      have printed : xmlElement tag value ++ tail =
          9 :: (startTag tag ++ (value ++ (endTag tag ++ newline :: tail))) := by
        simp [xmlElement]
      rw [starts, flatMap_cons, append_assoc]
      rw [printed, dropWhile_cons_of_pos (by decide), start_tag_head]
    have content := xml_text_plain value (47 :: (tag ++ (text ">" ++ newline :: tail)))
      (plain (tag, value) mem_cons_self)
    rw [← end_tag_head] at content
    obtain ⟨last, loop, ended⟩ := ih
      (fun other member => plain other (mem_cons_of_mem _ member)) (newline :: tail)
      (dropWhile_cons_of_pos (by decide))
    refine ⟨last, ?_, ended⟩
    simp only [map_cons, readElements, head, expect_append, content, loop, bind_eq_bind, bind_some]

theorem read_server (record : Record) (plain : ∀ value ∈ values record, XmlPlain value)
    (input rest : Text) (starts : input.dropWhile xmlSpace = xmlRecord record ++ rest) :
    readServer input = some (values record, newline :: rest) := by
  let elements := tags.zip (values record)
  have names : elements.map fst = tags := map_fst_zip (by simp [tags, values])
  have contents : elements.map snd = values record := map_snd_zip (by simp [tags, values])
  have clean : ∀ element ∈ elements, XmlPlain element.2 :=
    fun element member => plain element.2 (contents ▸ List.mem_map_of_mem member)
  obtain ⟨last, loop, ended⟩ := read_elements elements clean
    (newline :: (elements.flatMap (fun element => xmlElement element.1 element.2) ++
      (endTag serverTag ++ newline :: rest))) (endTag serverTag ++ newline :: rest)
    (dropWhile_cons_of_pos (by decide))
  have printed : xmlRecord record ++ rest = startTag serverTag ++ (newline ::
      (elements.flatMap (fun element => xmlElement element.1 element.2) ++
        (endTag serverTag ++ newline :: rest))) := by
    simp [xmlRecord, elements]
  have closing : (endTag serverTag ++ newline :: rest).dropWhile xmlSpace =
      endTag serverTag ++ newline :: rest := by
    rw [end_tag_head, dropWhile_cons_of_neg (by decide)]
  rw [names, contents] at loop
  simp only [readServer, starts, printed, expect_append, loop, ended, closing,
    bind_eq_bind, bind_some]

section
variable (plain : ∀ record ∈ records, ∀ value ∈ values record, XmlPlain value)
include plain

-- Induction on the servers that are still to be read.
theorem read_servers (rounds : Nat) (enough : records.length ≤ rounds) (input : Text)
    (starts : input.dropWhile xmlSpace = (records.flatMap xmlRecord).dropWhile xmlSpace) :
    readServers rounds input = some (records.map values) := by
  induction records generalizing rounds input with
  | nil =>
    have blank : input.dropWhile xmlSpace = [] := starts
    cases rounds <;> simp [readServers, blank]
  | cons record rest ih =>
    have head : input.dropWhile xmlSpace = xmlRecord record ++ rest.flatMap xmlRecord := by
      rw [starts, flatMap_cons, xmlRecord, append_assoc, start_tag_head]
    cases rounds with
    | zero => simp at enough
    | succ rounds =>
      have first := read_server record (plain record mem_cons_self) input _ head
      have others := ih (fun other member => plain other (mem_cons_of_mem _ member)) rounds
        (by simpa using enough) (newline :: rest.flatMap xmlRecord)
        (dropWhile_cons_of_pos (by decide))
      have present : input.dropWhile xmlSpace ≠ [] := by
        simp [head, xmlRecord]
      rw [readServers, if_neg present, first]
      simp only [bind_eq_bind, bind_some, others, map_cons]

theorem xml_fields_read :
    xmlFields (records.flatMap xmlRecord) = some (records.map values) := by
  apply read_servers records plain _ _ _ rfl
  induction records with
  | nil => simp
  | cons record rest ih =>
    have others := ih fun other member => plain other (mem_cons_of_mem _ member)
    have nonempty : 0 < (xmlRecord record).length := by simp [xmlRecord]
    simp only [length_cons, flatMap_cons, length_append]
    omega

end

theorem numeral_xml_plain (field : Text) (range : ∀ byte ∈ field, 46 ≤ byte ∧ byte ≤ 57) :
    XmlPlain field := by
  have outside (byte : UInt8) (least : 46 ≤ byte) (most : byte ≤ 57) : xmlChar byte = true ∧
      byte ≠ 60 ∧ byte ≠ 38 ∧ byte ≠ 13 := by
    have printable : (32 : UInt8) ≤ byte := UInt8.le_trans (by decide) least
    refine ⟨by simp [xmlChar, printable], ?_, ?_, ?_⟩
    · rintro rfl
      exact absurd most (by decide)
    · rintro rfl
      exact absurd least (by decide)
    · rintro rfl
      exact absurd least (by decide)
  refine ⟨fun byte member => outside byte (range byte member).1 (range byte member).2, ?_⟩
  intro inside
  have member : (93 : UInt8) ∈ field := inside.subset (by decide)
  exact absurd (range 93 member).2 (by decide)

end Pvpgn.TrackerXml
