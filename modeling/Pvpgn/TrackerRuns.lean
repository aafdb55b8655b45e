import Pvpgn.Tracker

/-!
Runs of the tracker. What it lists is compared with the datagrams that it has received and the
dumps that it has made, and what it writes with what a reader finds in the file.
-/

namespace Pvpgn.TrackerRuns
open Stdio ObjectStore TrackPacket TrackerFile TrackerXml Tracker List Option

/-- The servers that a file in the format of the tracker lists. -/
def readFile (prefs : Prefs) (file : Text) : Option (List Record) :=
  (if prefs.xmlMode = 1 then xmlFields file else plainFields file).bind (·.mapM readRecord)

/-! What the list is to hold. -/

/-- A datagram with a whole packet of a version that is read. -/
def Valid (bytes : Text) : Prop :=
  packetSize ≤ bytes.length ∧ trackVersion ≤ bnShortNget (slice bytes packetVersion)

/-- The datagram that a server is listed for. -/
def Made (server : Server) : Event → Prop
  | .received time address bytes =>
    Valid bytes ∧ isShutdown bytes = false ∧ server.updated = time ∧ server.address = address ∧
      fixups (bytes.take packetSize) = some server.info
  | .wrote _ _ => False

/-- A server is listed up to the next packet from its address, and up to a dump that comes later
than its expiry period. -/
def Ends (prefs : Prefs) (server : Server) : Event → Prop
  | .received _ address bytes => Valid bytes ∧ address = server.address
  | .wrote time _ => server.updated + prefs.expire.toNat < time

section Since
variable {Happening : Type}

/-- Something has happened that `starts`, and nothing that `ends` since then. -/
def Since (starts ends : Happening → Prop) (history : List Happening) : Prop :=
  ∃ before event after, history = before ++ event :: after ∧ starts event ∧
    ∀ later ∈ after, ¬ends later

variable (starts ends : Happening → Prop)

theorem since_concat (history : List Happening) (last : Happening) :
    Since starts ends (history ++ [last]) ↔
      starts last ∨ (Since starts ends history ∧ ¬ends last) := by
  constructor
  · rintro ⟨before, event, after, split, begun, still⟩
    rcases eq_nil_or_concat after with rfl | ⟨middle, final, rfl⟩
    · have same := append_inj_right' split rfl
      exact Or.inl (singleton_inj.mp same ▸ begun)
    rw [concat_eq_append] at split still
    have parts : history ++ [last] = (before ++ event :: middle) ++ [final] := by
      simpa using split
    obtain ⟨earlier, same⟩ := append_inj' parts rfl
    rw [singleton_inj.mp same]
    exact Or.inr ⟨⟨before, event, middle, earlier, begun,
      fun later member => still later (mem_append_left _ member)⟩, still final (by simp)⟩
  · rintro (begun | ⟨⟨before, event, after, split, begun, still⟩, kept⟩)
    · exact ⟨history, last, [], rfl, begun, by simp⟩
    refine ⟨before, event, after ++ [last], by simp [split], begun, ?_⟩
    intro later member
    rcases mem_append.mp member with old | new
    · exact still later old
    · rw [mem_singleton.mp new]
      exact kept

end Since

/-- At most one server for each address, and just the ones that were made and have not ended. -/
def Listed (prefs : Prefs) (history : List Event) (servers : List Server) : Prop :=
  (servers.map Server.address).Nodup ∧
    ∀ server, server ∈ servers ↔ Since (Made server) (Ends prefs server) history

/-- A reader of the file finds the fields of the servers that are listed when it is written. -/
def FileExact (prefs : Prefs) (history : List Event) (time : Int) (file : Text) : Prop :=
  ∃ servers records, Listed prefs (history ++ [.wrote time file]) servers ∧
    servers.mapM serverRecord = some records ∧ readFile prefs file = some records

/-- The datagram does not reach a defect: it fills the packet or it is not read, and XML has no
other meaning for its texts. -/
def Harmless (prefs : Prefs) (packet bytes : Text) : Prop :=
  (packetSize ≤ bytes.length ∨
    ¬trackVersion ≤ bnShortNget (slice (recvfrom packet bytes) packetVersion)) ∧
  (prefs.xmlMode = 1 → Valid bytes → isShutdown bytes = false →
    ∀ info, fixups (bytes.take packetSize) = some info →
      ∀ field ∈ textFields, ∀ content, textAt info field = some content → XmlPlain content)

def Guarded (prefs : Prefs) : State → List Round → Prop
  | _, [] => True
  | state, round :: rest =>
    (∀ address bytes, waiting prefs state round = some (address, bytes) →
      Harmless prefs state.packet bytes) ∧
    ∀ after events, serverRound prefs state round = some (after, events) → Guarded prefs after rest

/-! What the list holds. -/

theorem signed_period {period : UInt32} (small : period.toNat < 2 ^ 31) :
    signed32 period = period.toNat := by
  have half : 2 * period.toNat < 2 ^ 32 := by omega
  exact BitVec.toInt_eq_toNat_of_lt half

variable {prefs : Prefs} {history : List Event} {servers : List Server}

theorem listed_renewed {info bytes : Text} {address : InAddr} {now : Int} {after : List Server}
    (listed : Listed prefs history servers) (valid : Valid bytes)
    (fixed : fixups (bytes.take packetSize) = some info) (same : isShutdown info = isShutdown bytes)
    (renewed : Renewed info address now servers after) :
    Listed prefs (history ++ [.received now address bytes]) after := by
  refine ⟨renewed.1, fun server => ?_⟩
  rw [renewed.2, listed.2, since_concat]
  simp only [Made, Ends, valid, fixed, same, true_and, Option.some.injEq]
  constructor
  · rintro (⟨up, rfl⟩ | ⟨apart, since⟩)
    · exact Or.inl ⟨up, rfl, rfl, rfl⟩
    · exact Or.inr ⟨since, fun hit => apart hit.symm⟩
  · rintro (⟨up, rfl, rfl, rfl⟩ | ⟨since, apart⟩)
    · exact Or.inl ⟨up, rfl⟩
    · exact Or.inr ⟨fun hit => apart hit.symm, since⟩

theorem listed_ignored {bytes : Text} {address : InAddr} {now : Int}
    (listed : Listed prefs history servers) (invalid : ¬Valid bytes) :
    Listed prefs (history ++ [.received now address bytes]) servers := by
  refine ⟨listed.1, fun server => ?_⟩
  rw [listed.2, since_concat]
  simp [Made, Ends, invalid]

theorem listed_dumped {time : Int} {file : Text} (period : prefs.expire.toNat < 2 ^ 31)
    (listed : Listed prefs history servers) :
    Listed prefs (history ++ [.wrote time file])
      (servers.filter fun server => !expired prefs time server) := by
  refine ⟨(filter_sublist.map Server.address).nodup listed.1, fun server => ?_⟩
  rw [since_concat, ← listed.2]
  simp [Made, Ends, expired, signed_period period]

/-! What a file says. -/

def Clear (prefs : Prefs) (content : Text) : Prop :=
  NoPair content ∧ (prefs.xmlMode = 1 → XmlPlain content)

def Printable (prefs : Prefs) (server : Server) : Prop :=
  ∀ field ∈ textFields, ∃ content, textAt server.info field = some content ∧ Clear prefs content

theorem printable_record {server : Server} (printable : Printable prefs server) :
    ∃ record, serverRecord server = some record ∧ ∀ field ∈ texts record, Clear prefs field := by
  simp only [Printable, textFields, mem_cons, not_mem_nil, or_false, forall_eq_or_imp,
    forall_eq] at printable
  obtain ⟨⟨software, readSoftware, clearSoftware⟩, ⟨version, readVersion, clearVersion⟩,
    ⟨platform, readPlatform, clearPlatform⟩, ⟨desc, readDesc, clearDesc⟩,
    ⟨location, readLocation, clearLocation⟩, ⟨url, readUrl, clearUrl⟩, ⟨name, readName, clearName⟩,
    ⟨email, readEmail, clearEmail⟩⟩ := printable
  refine ⟨_, by
    simp only [serverRecord, readSoftware, readVersion, readPlatform, readDesc, readLocation,
      readUrl, readName, readEmail, bind_eq_bind, bind_some]
    rfl, ?_⟩
  simp only [texts, mem_cons, not_mem_nil, or_false, forall_eq_or_imp, forall_eq]
  exact ⟨clearLocation, clearSoftware, clearVersion, clearDesc, clearPlatform, clearUrl, clearName,
    clearEmail⟩

theorem read_file (records : List Record)
    (clear : ∀ record ∈ records, ∀ field ∈ texts record, Clear prefs field) :
    readFile prefs (records.flatMap (printRecord prefs.xmlMode)) = some records := by
  have back : (records.map values).mapM readRecord = some records := by
    rw [map_reads values readRecord id records fun record _ => read_record record, List.map_id]
  have printed : (if prefs.xmlMode = 1
      then xmlFields (records.flatMap (printRecord prefs.xmlMode))
      else plainFields (records.flatMap (printRecord prefs.xmlMode))) =
        some (records.map values) := by
    by_cases xml : prefs.xmlMode = 1
    · have same : printRecord prefs.xmlMode = xmlRecord := by
        funext record
        rw [printRecord, if_pos xml]
      rw [if_pos xml, same]
      exact xml_fields_read records fun record member => values_hold XmlPlain numeral_xml_plain
        record fun field stored => (clear record member field stored).2 xml
    · have same : printRecord prefs.xmlMode = plainRecord := by
        funext record
        rw [printRecord, if_neg xml]
      rw [if_neg xml, same]
      exact plain_fields_read records fun record member => values_hold NoPair numeral_no_pair
        record fun field stored => (clear record member field stored).1
  rw [readFile, printed, bind_some, back]

/-! A run. -/

structure Tidy (prefs : Prefs) (history : List Event) (state : State) : Prop where
  sized : state.packet.length = packetSize
  listed : Listed prefs history (entries state.servers)
  printable : ∀ server ∈ entries state.servers, Printable prefs server

def FilesExact (prefs : Prefs) (history events : List Event) : Prop :=
  ∀ before time file later, events = before ++ .wrote time file :: later →
    FileExact prefs (history ++ before) time file

theorem files_append {first second : List Event} (early : FilesExact prefs history first)
    (late : FilesExact prefs (history ++ first) second) :
    FilesExact prefs history (first ++ second) := by
  intro before time file later split
  rcases append_eq_append_iff.mp split with ⟨middle, rfl, tail⟩ | ⟨middle, rfl, tail⟩
  · have exact := late middle time file later tail
    rwa [append_assoc] at exact
  cases middle with
  | nil =>
    have exact := late [] time file later (by simpa using tail.symm)
    simpa using exact
  | cons event middle =>
    obtain ⟨rfl, _⟩ := cons_eq_cons.mp tail
    exact early before time file middle rfl

theorem files_none {events : List Event} (none : ∀ time file, .wrote time file ∉ events) :
    FilesExact prefs history events := by
  rintro before time file later rfl
  exact absurd (mem_append_right _ mem_cons_self) (none time file)

variable {state : State}

theorem dump_keeps (round : Round) (period : prefs.expire.toNat < 2 ^ 31)
    (tidy : Tidy prefs history state) :
    ∃ after written, dump prefs state round = some (after, written) ∧
      after.packet = state.packet ∧ Tidy prefs (history ++ written) after ∧
      FilesExact prefs history written := by
  by_cases now : due prefs state round = true
  · by_cases opened : round.opened = true
    · let record (server : Server) : Record := (serverRecord server).getD default
      have clear : ∀ server ∈ entries state.servers, serverRecord server = some (record server) ∧
          ∀ field ∈ texts (record server), Clear prefs field := by
        intro server member
        obtain ⟨found, read, fields⟩ := printable_record (tidy.printable server member)
        have same : record server = found := by simp [record, read]
        exact ⟨by rw [same, read], same ▸ fields⟩
      obtain ⟨servers, wrote, kept⟩ := @write_file_spec prefs round.start state.servers record
        fun server member => (clear server member).1
      have fewer : ∀ server ∈ entries servers, server ∈ entries state.servers := by
        intro server member
        rw [kept] at member
        exact (mem_filter.mp member).1
      let file : Text :=
        (entries servers).flatMap fun server => printRecord prefs.xmlMode (record server)
      have listed : Listed prefs (history ++ [.wrote round.start file]) (entries servers) :=
        kept ▸ listed_dumped period tidy.listed
      refine ⟨{ state with servers := servers, last := round.start }, [.wrote round.start file], ?_,
        rfl, ⟨tidy.sized, listed, fun server member => tidy.printable server (fewer server member)⟩,
        ?_⟩
      · rw [dump, if_pos now, if_pos opened, wrote]
        rfl
      intro before time other later split
      cases before with
      | nil =>
        cases split
        have stored := map_reads id serverRecord record (entries servers)
          fun server member => (clear server (fewer server member)).1
        rw [List.map_id] at stored
        have back : readFile prefs (((entries servers).map record).flatMap
            (printRecord prefs.xmlMode)) = some ((entries servers).map record) :=
          read_file _ (by
            intro found member
            obtain ⟨server, inside, rfl⟩ := List.mem_map.mp member
            exact (clear server (fewer server inside)).2)
        rw [flatMap_map] at back
        exact ⟨entries servers, (entries servers).map record, by simpa using listed, stored, back⟩
      | cons event before => simp at split
    · refine ⟨{ state with last := round.start }, [], ?_, rfl, ?_, files_none (by simp)⟩
      · rw [dump, if_pos now, if_neg opened]
      · rw [append_nil]
        exact ⟨tidy.sized, tidy.listed, tidy.printable⟩
  · refine ⟨state, [], by rw [dump, if_neg now], rfl, ?_, files_none (by simp)⟩
    rwa [append_nil]

theorem receive_keeps (now : Int) {datagram : Option (InAddr × Text)}
    (harmless : ∀ address bytes, datagram = some (address, bytes) →
      Harmless prefs state.packet bytes) (tidy : Tidy prefs history state) :
    ∃ after got, receive state now datagram = some (after, got) ∧
      Tidy prefs (history ++ got) after ∧ ∀ time file, .wrote time file ∉ got := by
  cases datagram with
  | none =>
    refine ⟨state, [], rfl, ?_, by simp⟩
    rwa [append_nil]
  | some datagram =>
    obtain ⟨address, bytes⟩ := datagram
    obtain ⟨whole, plain⟩ := harmless address bytes rfl
    have sized := recvfrom_length state.packet bytes tidy.sized
    by_cases accepted : trackVersion ≤ bnShortNget
        (slice (recvfrom state.packet bytes) packetVersion)
    · have long : packetSize ≤ bytes.length := whole.resolve_right fun none => none accepted
      have taken := recvfrom_whole state.packet bytes tidy.sized long
      rw [taken] at accepted sized
      obtain ⟨servers, info, fixed, length, done, same, neat, renewed⟩ := server_packet_spec
        state.servers (bytes.take packetSize) address now sized accepted tidy.listed.1
      have flag : isShutdown (bytes.take packetSize) = isShutdown bytes := by
        rw [isShutdown, isShutdown, slice_take bytes flags ⟨by decide, by decide⟩]
      rw [slice_take bytes packetVersion ⟨by decide, by decide⟩] at accepted
      have valid : Valid bytes := ⟨long, accepted⟩
      have printable : ∀ server ∈ entries servers, Printable prefs server := by
        intro server member
        rcases (renewed.2 server).mp member with ⟨up, rfl⟩ | ⟨_, old⟩
        · intro field text
          obtain ⟨content, read, single⟩ := text_at_neat info field (neat field text)
          rw [same, flag] at up
          exact ⟨content, read, single, fun xml =>
            plain xml valid up info fixed field text content read⟩
        · exact tidy.printable server old
      refine ⟨{ state with servers := servers, packet := info }, [.received now address bytes],
        ?_, ⟨length, listed_renewed tidy.listed valid fixed (same.trans flag) renewed, printable⟩,
        by simp⟩
      simp only [receive, taken, done, bind_eq_bind, bind_some]
    · have invalid : ¬Valid bytes := by
        rintro ⟨long, version⟩
        rw [recvfrom_whole state.packet bytes tidy.sized long,
          slice_take bytes packetVersion ⟨by decide, by decide⟩] at accepted
        exact accepted version
      refine ⟨{ state with packet := recvfrom state.packet bytes }, [.received now address bytes],
        ?_, ⟨sized, listed_ignored tidy.listed invalid, tidy.printable⟩, by simp⟩
      simp only [receive, serverPacket, if_neg accepted, bind_eq_bind, bind_some]

theorem round_keeps {round : Round} (period : prefs.expire.toNat < 2 ^ 31)
    (harmless : ∀ address bytes, waiting prefs state round = some (address, bytes) →
      Harmless prefs state.packet bytes) (tidy : Tidy prefs history state) :
    ∃ after events, serverRound prefs state round = some (after, events) ∧
      Tidy prefs (history ++ events) after ∧ FilesExact prefs history events := by
  obtain ⟨middle, written, dumped, same, mid, files⟩ := dump_keeps round period tidy
  rw [← same] at harmless
  obtain ⟨after, got, taken, last, none⟩ := receive_keeps round.stamp harmless mid
  refine ⟨after, written ++ got, ?_, ?_, files_append files (files_none none)⟩
  · simp only [serverRound, dumped, taken, bind_eq_bind, bind_some]
  · rwa [← append_assoc]

end Pvpgn.TrackerRuns
