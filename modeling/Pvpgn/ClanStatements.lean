import Pvpgn.SqlClans

/-!
What the statements of `sql_write_clan` and `sql_load_clans` mean to the engine, and what the
engine does with them: a clan is read back as it was written if and only if its name needs no
escape, its number is not 0 and its time of creation fits in 32 bits.
-/

namespace Pvpgn.ClanStatements
open Stdio SqlText SqlEngine SqlClans IrcNames List Option Function Int

def clanColumns : List Text :=
  [text "cid", text "short", text "name", text "motd", text "creation_time"]

def memberColumns : List Text := [text "uid", text "cid", text "status", text "join_time"]

def insertedClan (tab : TabPrefix) (clan : Clan) : Statement :=
  .insert tab.clan clanColumns
    [unsigned clan.clanid.toNat, printedInt clan.tag, clan.clanname, clan.clanMotd,
      printedTime clan.creationTime]

def updatedClan (tab : TabPrefix) (clan : Clan) : Statement :=
  .update tab.clan [(text "short", printedInt clan.tag), (text "name", clan.clanname),
      (text "motd", clan.clanMotd), (text "creation_time", printedTime clan.creationTime)]
    [.equals (text "cid") (unsigned clan.clanid.toNat)]

def insertedMember (tab : TabPrefix) (clanid : UInt32) (member : Member) : Statement :=
  .insert tab.clanmember [text "cid", text "uid", text "status", text "join_time"]
    [unsigned clanid.toNat, unsigned member.uid.toNat, signed member.status.toInt,
      printedTime member.joinTime]

def updatedMember (tab : TabPrefix) (clanid : UInt32) (member : Member) : Statement :=
  .update tab.clanmember [(text "cid", unsigned clanid.toNat),
      (text "status", signed member.status.toInt), (text "join_time", printedTime member.joinTime)]
    [.equals (text "uid") (unsigned member.uid.toNat)]

section Tokens
variable {backslashes : Bool} {tab : TabPrefix} {clan : Clan} {member : Member} {clanid : UInt32}

theorem scan_table (name : TabPrefix → Text) (table : String)
    (named : name tab = tab.name ++ text table) (some : text table ≠ [])
    (plain : (text table).all isWord = true) :
    scan backslashes .outside (name tab) = (.word (name tab), []) := by
  apply scan_outside
  · simp [named, some]
  rw [named]
  intro byte inside
  rcases mem_append.mp inside with own | rest
  · exact tab.word byte own
  · exact all_eq_true.mp plain byte rest

theorem scan_clan :
    scan backslashes .outside tab.clan = (.word tab.clan, []) :=
  scan_table TabPrefix.clan "clan" rfl (by decide) (by decide)

theorem scan_clanmember :
    scan backslashes .outside tab.clanmember = (.word tab.clanmember, []) :=
  scan_table TabPrefix.clanmember "clanmember" rfl (by decide) (by decide)

theorem scan_unsigned (value : Nat) :
    scan backslashes (.literal []) (unsigned value) = (.literal (unsigned value), []) :=
  scan_literal [] _ (unsigned_literal backslashes value)

theorem scan_signed (value : Int) :
    scan backslashes (.literal []) (signed value) = (.literal (signed value), []) :=
  scan_literal [] _ (signed_literal backslashes value)

theorem count_clan_tokens (backslashes : Bool) (tab : TabPrefix) (clanid : UInt32) :
    tokens backslashes (countClan tab clanid) =
      some (render (.count tab.clan [.equals (text "cid") (unsigned clanid.toNat)])) := by
  apply Eq.trans (tokens_scanned (scan_chain rfl (scan_chain scan_clan (scan_chain rfl
    (scan_chain (scan_unsigned _) rfl)))) rfl)
  rfl

theorem count_member_tokens (backslashes : Bool) (tab : TabPrefix) (uid : UInt32) :
    tokens backslashes (countMember tab uid) =
      some (render (.count tab.clanmember [.equals (text "uid") (unsigned uid.toNat)])) := by
  apply Eq.trans (tokens_scanned (scan_chain rfl (scan_chain scan_clanmember (scan_chain rfl
    (scan_chain (scan_unsigned _) rfl)))) rfl)
  rfl

theorem select_clans_tokens (backslashes : Bool) (tab : TabPrefix) :
    tokens backslashes (selectClans tab) =
      some (render (.select clanColumns tab.clan [.positive (text "cid")])) := by
  apply Eq.trans (tokens_scanned (scan_chain rfl (scan_chain scan_clan rfl)) rfl)
  rfl

theorem select_members_tokens (backslashes : Bool) (tab : TabPrefix) (clanid : UInt32) :
    tokens backslashes (selectMembers tab clanid) =
      some (render (.select [text "uid", text "status", text "join_time"] tab.clanmember
        [.equals (text "cid") (unsigned clanid.toNat)])) := by
  apply Eq.trans (tokens_scanned (scan_chain rfl (scan_chain scan_clanmember (scan_chain rfl
    (scan_chain (scan_unsigned _) rfl)))) rfl)
  rfl

set_option maxRecDepth 2000 in
theorem insert_member_tokens :
    tokens backslashes (insertMember tab clanid member) =
      some (render (insertedMember tab clanid member)) := by
  apply Eq.trans (tokens_scanned (scan_chain rfl (scan_chain scan_clanmember (scan_chain rfl
    (scan_chain (scan_unsigned _) (scan_chain rfl (scan_chain (scan_unsigned _) (scan_chain rfl
      (scan_chain (scan_signed _) (scan_chain rfl (scan_chain (scan_unsigned _) rfl)))))))))) rfl)
  rfl

set_option maxRecDepth 2000 in
theorem update_member_tokens :
    tokens backslashes (updateMember tab clanid member) =
      some (render (updatedMember tab clanid member)) := by
  apply Eq.trans (tokens_scanned (scan_chain rfl (scan_chain scan_clanmember (scan_chain rfl
    (scan_chain (scan_unsigned _) (scan_chain rfl (scan_chain (scan_signed _) (scan_chain rfl
      (scan_chain (scan_unsigned _) (scan_chain rfl (scan_chain (scan_unsigned _) rfl)))))))))) rfl)
  rfl

variable {escMotd : Text}

set_option maxRecDepth 2000 in
section
variable (name : ∀ byte ∈ clan.clanname, Literal backslashes byte)
  (motd : scan backslashes (.literal []) escMotd = (.literal clan.clanMotd, []))
include name motd

theorem insert_clan_tokens :
    tokens backslashes (insertClan tab clan escMotd) = some (render (insertedClan tab clan)) := by
  have named := scan_literal [] clan.clanname name
  apply Eq.trans (tokens_scanned (scan_chain rfl (scan_chain scan_clan (scan_chain rfl
    (scan_chain (scan_unsigned _) (scan_chain rfl (scan_chain (scan_signed _) (scan_chain rfl
      (scan_chain named (scan_chain rfl (scan_chain motd (scan_chain rfl
        (scan_chain (scan_unsigned _) rfl)))))))))))) rfl)
  rfl

set_option maxRecDepth 2000 in
theorem update_clan_tokens :
    tokens backslashes (updateClan tab clan escMotd) = some (render (updatedClan tab clan)) := by
  have named := scan_literal [] clan.clanname name
  apply Eq.trans (tokens_scanned (scan_chain rfl (scan_chain scan_clan (scan_chain rfl
    (scan_chain (scan_signed _) (scan_chain rfl (scan_chain named (scan_chain rfl
      (scan_chain motd (scan_chain rfl (scan_chain (scan_unsigned _) (scan_chain rfl
        (scan_chain (scan_unsigned _) rfl)))))))))))) rfl)
  rfl

end

end Tokens

section Lengths
variable {tab : TabPrefix} {clan : Clan} {member : Member} {clanid : UInt32}

theorem clan_length (tab : TabPrefix) : tab.clan.length ≤ 67 := by
  have short := tab.short
  have fixed : (text "clan").length = 4 := rfl
  rw [TabPrefix.clan, length_append]
  omega

theorem clanmember_length (tab : TabPrefix) : tab.clanmember.length ≤ 73 := by
  have short := tab.short
  have fixed : (text "clanmember").length = 10 := rfl
  rw [TabPrefix.clanmember, length_append]
  omega

theorem signed_length {value : Int} (least : -2 ^ 31 ≤ value) (most : value < 2 ^ 31) :
    (signed value).length ≤ 11 := by
  cases value with
  | ofNat value =>
    have bound := digits_length_le 10 value 11 (by decide) (by decide) (by simp at most; omega)
    exact bound
  | negSucc value =>
    have bound := digits_length_le 10 (value + 1) 10 (by decide) (by decide) (by omega)
    simp only [signed, length_cons]
    omega

theorem printed_int_length (value : UInt32) : (printedInt value).length ≤ 11 :=
  signed_length value.toInt32.le_toInt value.toInt32.toInt_lt

theorem status_length (status : Int8) : (signed status.toInt).length ≤ 11 := by
  have least := status.le_toInt
  have most := status.toInt_lt
  apply signed_length <;> omega

theorem printed_time_length (time : Int) : (printedTime time).length ≤ 10 :=
  unsigned_length (UInt32.ofInt time)

theorem count_clan_fits : (countClan tab clanid).length < querySize := by
  have table := clan_length tab
  have number := unsigned_length clanid
  have fixed : (text "SELECT count(*) FROM ").length + (text " WHERE cid='").length +
      (text "'").length = 34 := rfl
  simp only [countClan, length_append, querySize]
  omega

theorem count_member_fits (uid : UInt32) : (countMember tab uid).length < querySize := by
  have table := clanmember_length tab
  have number := unsigned_length uid
  have fixed : (text "SELECT count(*) FROM ").length + (text " WHERE uid='").length +
      (text "'").length = 34 := rfl
  simp only [countMember, length_append, querySize]
  omega

theorem select_clans_fits : (selectClans tab).length < querySize := by
  have table := clan_length tab
  have fixed : (text "SELECT cid, short, name, motd, creation_time FROM ").length +
      (text " WHERE cid > 0").length = 64 := rfl
  simp only [selectClans, length_append, querySize]
  omega

theorem select_members_fits : (selectMembers tab clanid).length < querySize := by
  have table := clanmember_length tab
  have number := unsigned_length clanid
  have fixed : (text "SELECT uid, status, join_time FROM ").length +
      (text " WHERE cid='").length + (text "'").length = 48 := rfl
  simp only [selectMembers, length_append, querySize]
  omega

theorem insert_member_fits : (insertMember tab clanid member).length < querySize := by
  have table := clanmember_length tab
  have number := unsigned_length clanid
  have uid := unsigned_length member.uid
  have status := status_length member.status
  have time := printed_time_length member.joinTime
  have fixed : (text "INSERT INTO ").length +
      (text " (cid, uid, status, join_time) VALUES('").length + (text "', '").length +
      (text "')").length = 57 := rfl
  simp only [insertMember, length_append, querySize]
  omega

theorem update_member_fits : (updateMember tab clanid member).length < querySize := by
  have table := clanmember_length tab
  have number := unsigned_length clanid
  have uid := unsigned_length member.uid
  have status := status_length member.status
  have time := printed_time_length member.joinTime
  have fixed : (text "UPDATE ").length + (text " SET cid='").length +
      (text "', status='").length + (text "', join_time='").length +
      (text "' WHERE uid='").length + (text "'").length = 56 := rfl
  simp only [updateMember, length_append, querySize]
  omega

variable {escMotd : Text}

section
variable (name : clan.clanname.length ≤ clanNameMax) (motd : escMotd.length ≤ 2 * clanMotdMax)
include name motd

theorem insert_clan_fits :
    (insertClan tab clan escMotd).length < querySize := by
  have table := clan_length tab
  have number := unsigned_length clan.clanid
  have tag := printed_int_length clan.tag
  have time := printed_time_length clan.creationTime
  have fixed : (text "INSERT INTO ").length +
      (text " (cid, short, name, motd, creation_time) VALUES('").length + (text "', '").length +
      (text "')").length = 67 := rfl
  simp only [insertClan, length_append, querySize, clanNameMax, clanMotdMax] at name motd ⊢
  omega

theorem update_clan_fits :
    (updateClan tab clan escMotd).length < querySize := by
  have table := clan_length tab
  have number := unsigned_length clan.clanid
  have tag := printed_int_length clan.tag
  have time := printed_time_length clan.creationTime
  have fixed : (text "UPDATE ").length + (text " SET short='").length +
      (text "', name='").length + (text "', motd='").length +
      (text "', creation_time='").length + (text "' WHERE cid='").length +
      (text "'").length = 69 := rfl
  simp only [updateClan, length_append, querySize, clanNameMax, clanMotdMax] at name motd ⊢
  omega

end

theorem snprintf_short {query : Text} (fits : query.length < querySize) : snprintf query = query :=
  take_of_length_le (Nat.le_pred_of_lt fits)

end Lengths

/-- The statements that write a clan and its members. -/
inductive Writes (tab : TabPrefix) (clock : Clock) (clan : Clan) : Statement → Prop where
  | insertClan : Writes tab clock clan (insertedClan tab clan)
  | updateClan : Writes tab clock clan (updatedClan tab clan)
  | insertMember {member : Member} (own : member ∈ clan.members) :
      Writes tab clock clan (insertedMember tab clan.clanid (promoted clock member))
  | updateMember {member : Member} (own : member ∈ clan.members) :
      Writes tab clock clan (updatedMember tab clan.clanid (promoted clock member))

def Complete (backslashes : Bool) (tab : TabPrefix) (clock : Clock) (clan : Clan)
    (query : Text) : Prop :=
  ∃ written, Writes tab clock clan written ∧ tokens backslashes query = some (render written)

def ClanRow (row : Row) : Prop :=
  (∃ clanid : UInt32, row (text "cid") = some (unsigned clanid.toNat)) ∧
    ∀ column ∈ clanColumns, ∃ field, row column = some field

structure ClanTable (table : Table) : Prop where
  columns : ∀ column ∈ clanColumns, table.knows column = true
  rows : ∀ row ∈ table.rows, ClanRow row

def MemberTable (table : Table) : Prop := ∀ column ∈ memberColumns, table.knows column = true

structure Tables (tab : TabPrefix) (database : Database) (clans : Table) : Prop where
  found : database (fold tab.clan) = some clans
  clanTable : ClanTable clans
  members : ∃ members, database (fold tab.clanmember) = some members ∧ MemberTable members

variable {backslashes : Bool}

section Engine
variable {sql : Sql} {tab : TabPrefix} {clock : Clock} {clan : Clan} {session : Session}
  {clans : Table} {member : Member} {clanid : UInt32} {database : Database}

variable {query : Text} {meant : Statement}

theorem statement_read (fits : query.length < querySize)
    (read : tokens backslashes query = some (render meant))
    (parsed : parse (render meant) = some meant) :
    statement backslashes (snprintf query) = some meant := by
  rw [snprintf_short fits, statement, read, bind_some, parsed]

theorem tables_apart (tab : TabPrefix) : fold tab.clan ≠ fold tab.clanmember := by
  intro same
  have lengths := congrArg length same
  have one : (text "clan").length = 4 := rfl
  have other : (text "clanmember").length = 10 := rfl
  simp only [fold, length_map, TabPrefix.clan, TabPrefix.clanmember, length_append] at lengths
  omega

theorem knows_listed {table : Table} {listed columns : List Text}
    (known : ∀ column ∈ listed, table.knows column = true) (inside : columns ⊆ listed) :
    ∀ column ∈ columns, table.knows column = true :=
  fun column named => known column (inside named)

def present (clanid : UInt32) (row : Row) : Bool := row (text "cid") = some (unsigned clanid.toNat)

theorem matching_present (clanid : UInt32) :
    matching [.equals (text "cid") (unsigned clanid.toNat)] = present clanid := by
  funext row
  simp only [matching, all_cons, all_nil, Bool.and_true, holds, present]
  rfl

theorem counted_executed {query : Text} {meant : Statement} {rows : Nat}
    (read : statement sql.backslashes (snprintf query) = some meant)
    (done : execute session.database meant =
      some (session.database, ⟨[[some (unsigned rows)]], 0⟩)) :
    counted sql session query = some (decide (1 ≤ rows)) := by
  rw [counted, query_res_executed sql read done]
  have value := numeral_unsigned rows
  simp [firstValue, value]

theorem counted_clan (sql : Sql) (session : Session)
    (tables : Tables tab session.database clans) (clanid : UInt32) :
    counted sql session (countClan tab clanid) =
      some (decide (1 ≤ (clans.rows.filter (present clanid)).length)) := by
  have read := statement_read count_clan_fits
    (count_clan_tokens sql.backslashes tab clanid) rfl
  apply counted_executed read
  rw [execute_count tables.found, matching_present]
  simpa [conditionColumn] using tables.clanTable.columns _ mem_cons_self

variable {row : Row} {loaded : List Loaded} {members : Table}

theorem counted_member (sql : Sql) (found : session.database (fold tab.clanmember) = some members)
    (known : MemberTable members) (uid : UInt32) :
    ∃ there, counted sql session (countMember tab uid) = some there := by
  have read := statement_read (count_member_fits uid)
    (count_member_tokens sql.backslashes tab uid) rfl
  refine ⟨_, counted_executed read (execute_count found ?_)⟩
  simpa [conditionColumn] using known _ mem_cons_self

variable {escMotd : Text} {result : Result}

theorem submitted_executed (session : Session) {after : Database}
    (read : statement sql.backslashes (snprintf query) = some meant)
    (done : execute session.database meant = some (after, result)) :
    submitted sql session query = (⟨after, session.submitted ++ [snprintf query]⟩, 0) := by
  rw [submitted, submit_executed sql read done]

theorem tables_member (tables : Tables tab database clans) (known : MemberTable members) :
    Tables tab (update database (fold tab.clanmember) (some members)) clans where
  found := by rw [update_of_ne (tables_apart tab), tables.found]
  clanTable := tables.clanTable
  members := ⟨members, update_self .., known⟩

structure MembersKept (sql : Sql) (tab : TabPrefix) (clock : Clock) (clan : Clan) (clans : Table)
    (before after : Session) : Prop where
  tables : Tables tab after.database clans
  old : ∀ query ∈ before.submitted, query ∈ after.submitted
  complete : ∀ query ∈ after.submitted,
    query ∈ before.submitted ∨ Complete sql.backslashes tab clock clan query

theorem members_kept_refl (tables : Tables tab session.database clans) :
    MembersKept sql tab clock clan clans session session :=
  ⟨tables, fun _ => id, fun _ => Or.inl⟩

theorem members_kept_trans {middle after : Session}
    (first : MembersKept sql tab clock clan clans session middle)
    (second : MembersKept sql tab clock clan clans middle after) :
    MembersKept sql tab clock clan clans session after where
  tables := second.tables
  old := fun query done => second.old query (first.old query done)
  complete := fun query done => (second.complete query done).elim (first.complete query) Or.inr

theorem member_submitted (sql : Sql) (clock : Clock) (tables : Tables tab session.database clans)
    (fits : query.length < querySize) (read : tokens sql.backslashes query = some (render meant))
    (parsed : parse (render meant) = some meant) (written : Writes tab clock clan meant)
    (done : execute session.database meant =
      some (update session.database (fold tab.clanmember) (some members), result))
    (known : MemberTable members) :
    (submitted sql session query).2 = 0 ∧
      MembersKept sql tab clock clan clans session (submitted sql session query).1 := by
  rw [submitted_executed session (statement_read fits read parsed) done, snprintf_short fits]
  refine ⟨rfl, tables_member tables known, fun query done => mem_append_left _ done, ?_⟩
  intro other done
  rcases mem_append.mp done with old | new
  · exact Or.inl old
  · rw [mem_singleton.mp new]
    exact Or.inr ⟨meant, written, read⟩

theorem write_member_kept (sql : Sql) (clock : Clock) (tables : Tables tab session.database clans)
    (own : member ∈ clan.members) :
    (writeMember sql tab clock clan.clanid session member).2 = true ∧
      MembersKept sql tab clock clan clans session
        (writeMember sql tab clock clan.clanid session member).1 := by
  obtain ⟨members, found, known⟩ := tables.members
  obtain ⟨there, answer⟩ := counted_member sql found known member.uid
  rw [writeMember]
  split
  · exact ⟨rfl, members_kept_refl tables⟩
  split
  · exact ⟨rfl, members_kept_refl tables⟩
  rw [answer]
  cases there with
  | true =>
    have kept := member_submitted sql clock tables update_member_fits update_member_tokens rfl
      (.updateMember own) (execute_update found
        (by simpa using ⟨known _ (by decide), known _ (by decide), known _ (by decide)⟩)
        (by simpa [conditionColumn] using known _ (by decide))) known
    exact ⟨by simp [kept.1], kept.2⟩
  | false =>
    have kept := member_submitted sql clock tables insert_member_fits insert_member_tokens rfl
      (.insertMember own)
      (execute_insert found (knows_listed known (by decide)) rfl) known
    exact ⟨by simp [kept.1], kept.2⟩

theorem write_members_kept (sql : Sql) (clock : Clock) (members : List Member)
    (own : members ⊆ clan.members)
    (session : Session) (tables : Tables tab session.database clans) :
    (writeMembers sql tab clock clan.clanid session members).2 = 0 ∧
      MembersKept sql tab clock clan clans session
        (writeMembers sql tab clock clan.clanid session members).1 := by
  induction members generalizing session with
  | nil => exact ⟨rfl, members_kept_refl tables⟩
  | cons member rest ih =>
    obtain ⟨mine, others⟩ := cons_subset.mp own
    obtain ⟨goes, kept⟩ := write_member_kept sql clock tables mine
    obtain ⟨done, later⟩ := ih others _ kept.tables
    rw [writeMembers]
    simp only [goes, if_true]
    exact ⟨done, members_kept_trans kept later⟩

structure Stored (clan : Clan) (row : Row) : Prop where
  cid : row (text "cid") = some (unsigned clan.clanid.toNat)
  short : row (text "short") = some (printedInt clan.tag)
  name : row (text "name") = some clan.clanname
  motd : row (text "motd") = some clan.clanMotd
  creationTime : row (text "creation_time") = some (printedTime clan.creationTime)

theorem Stored.clanRow (stored : Stored clan row) : ClanRow row := by
  refine ⟨⟨clan.clanid, stored.cid⟩, ?_⟩
  simp [clanColumns, stored.cid, stored.short, stored.name, stored.motd, stored.creationTime]

structure Held (clan : Clan) (table : Table) : Prop where
  shape : ClanTable table
  stored : ∃ row ∈ table.rows, Stored clan row
  own : ∀ row ∈ table.rows, present clan.clanid row = true → Stored clan row

theorem inserted_held (table : ClanTable clans)
    (absent : ∀ row ∈ clans.rows, present clan.clanid row = false) :
    Held clan (clans.added (assign (fun _ => none) (clanColumns.zip
      [unsigned clan.clanid.toNat, printedInt clan.tag, clan.clanname, clan.clanMotd,
        printedTime clan.creationTime]))) := by
  have stored : Stored clan (assign (fun _ => none) (clanColumns.zip
      [unsigned clan.clanid.toNat, printedInt clan.tag, clan.clanname, clan.clanMotd,
        printedTime clan.creationTime])) := ⟨rfl, rfl, rfl, rfl, rfl⟩
  refine ⟨⟨table.columns, ?_⟩, ⟨_, mem_append_right _ mem_cons_self, stored⟩, ?_⟩
  · intro row inside
    rcases mem_append.mp inside with old | new
    · exact table.rows row old
    · exact mem_singleton.mp new ▸ stored.clanRow
  · intro row inside own
    rcases mem_append.mp inside with old | new
    · rw [absent row old] at own
      contradiction
    · exact mem_singleton.mp new ▸ stored

theorem updated_stored (own : present clan.clanid row = true) :
    Stored clan (assign row [(text "short", printedInt clan.tag), (text "name", clan.clanname),
      (text "motd", clan.clanMotd), (text "creation_time", printedTime clan.creationTime)]) :=
  ⟨of_decide_eq_true own, rfl, rfl, rfl, rfl⟩

theorem updated_held (table : ClanTable clans)
    (there : ∃ row ∈ clans.rows, present clan.clanid row = true) :
    Held clan (clans.updated [(text "short", printedInt clan.tag), (text "name", clan.clanname),
        (text "motd", clan.clanMotd), (text "creation_time", printedTime clan.creationTime)]
      [.equals (text "cid") (unsigned clan.clanid.toNat)]) := by
  rw [Table.updated, matching_present]
  constructor
  · refine ⟨table.columns, ?_⟩
    intro after inside
    obtain ⟨row, old, rfl⟩ := mem_map.mp inside
    split
    · exact (updated_stored ‹_›).clanRow
    · exact table.rows row old
  · obtain ⟨row, old, own⟩ := there
    refine ⟨_, mem_map_of_mem old, ?_⟩
    rw [if_pos own]
    exact updated_stored own
  · intro after inside mine
    obtain ⟨row, old, rfl⟩ := mem_map.mp inside
    by_cases own : present clan.clanid row = true
    · rw [if_pos own]
      exact updated_stored own
    · rw [if_neg own] at mine
      exact absurd mine own

theorem clan_statement (sql : Sql) (clock : Clock) (tables : Tables tab database clans)
    (name : clan.clanname.length ≤ clanNameMax) (motd : clan.clanMotd.length ≤ clanMotdMax)
    (nulFree : 0 ∉ clan.clanMotd) (plain : ∀ byte ∈ clan.clanname, Literal sql.backslashes byte) :
    ∃ query meant after result,
      query = (if decide (1 ≤ (clans.rows.filter (present clan.clanid)).length) then
        updateClan tab clan (sql.escape clan.clanMotd)
        else insertClan tab clan (sql.escape clan.clanMotd)) ∧ query.length < querySize ∧
      Writes tab clock clan meant ∧ tokens sql.backslashes query = some (render meant) ∧
      parse (render meant) = some meant ∧ Held clan after ∧
      execute database meant =
        some (update database (fold tab.clan) (some after), result) := by
  have escaped := sql.escapes.denotes [] clan.clanMotd nulFree
  have room : (sql.escape clan.clanMotd).length ≤ 2 * clanMotdMax :=
    (sql.escapes.length clan.clanMotd).trans (Nat.mul_le_mul_left 2 motd)
  have known := tables.clanTable.columns
  by_cases there : 1 ≤ (clans.rows.filter (present clan.clanid)).length
  · refine ⟨_, _, _, _, (if_pos (decide_eq_true there)).symm, update_clan_fits name room,
      .updateClan, update_clan_tokens plain escaped, rfl, updated_held tables.clanTable ?_,
      execute_update tables.found ?_ ?_⟩
    · obtain ⟨row, inside⟩ := exists_mem_of_length_pos there
      exact ⟨row, mem_filter.mp inside⟩
    · simpa using ⟨known _ (by decide), known _ (by decide), known _ (by decide),
        known _ (by decide)⟩
    · simpa [conditionColumn] using known _ (by decide)
  · have none : clans.rows.filter (present clan.clanid) = [] := eq_nil_of_length_eq_zero (by omega)
    refine ⟨_, _, _, _, (if_neg (by simpa using there)).symm, insert_clan_fits name room,
      .insertClan, insert_clan_tokens plain escaped, rfl, inserted_held tables.clanTable ?_,
      execute_insert tables.found known rfl⟩
    exact fun row old => Bool.eq_false_iff.mpr (filter_eq_nil_iff.mp none row old)

theorem tables_clan {after : Table} (tables : Tables tab database clans) (shape : ClanTable after) :
    Tables tab (update database (fold tab.clan) (some after)) after := by
  obtain ⟨members, found, others⟩ := tables.members
  exact ⟨update_self .., shape, members,
    by rw [update_of_ne (tables_apart tab).symm, found], others⟩

theorem write_clan_held (sql : Sql) (clock : Clock) (tables : Tables tab database clans)
    (name : clan.clanname.length ≤ clanNameMax) (motd : clan.clanMotd.length ≤ clanMotdMax)
    (nulFree : 0 ∉ clan.clanMotd) (plain : ∀ byte ∈ clan.clanname, Literal sql.backslashes byte) :
    ∃ session after, sqlWriteClan sql tab clock database clan = some (session, 0) ∧
      (∀ query ∈ session.submitted, Complete sql.backslashes tab clock clan query) ∧
      Tables tab session.database after ∧ Held clan after := by
  obtain ⟨query, meant, after, result, chosen, fits, written, read, parsed, held, done⟩ :=
    clan_statement sql clock tables name motd nulFree plain
  have room : ¬ clanMotdMax * 2 + 1 < (sql.escape clan.clanMotd).length + 1 := by
    have grown := sql.escapes.length clan.clanMotd
    omega
  have submission := submitted_executed ⟨database, []⟩ (statement_read fits read parsed) done
  obtain ⟨ended, kept⟩ := write_members_kept sql clock clan.members (Subset.refl _)
    ⟨update database (fold tab.clan) (some after), [snprintf query]⟩
    (tables_clan tables held.shape)
  refine ⟨_, after, ?_, ?_, kept.tables, held⟩
  · rw [sqlWriteClan, counted_clan sql ⟨database, []⟩ tables]
    simp only [if_neg room, ← chosen, submission]
    rw [if_neg (by decide), ← ended]
    rfl
  · intro other found
    rcases kept.complete other found with old | complete
    · rw [mem_singleton, snprintf_short fits] at old
      exact old ▸ ⟨meant, written, read⟩
    · exact complete

def loadedRow (row : Row) : Loaded :=
  ⟨atoi ((row (text "cid")).getD []), atoi ((row (text "short")).getD []),
    (row (text "name")).getD [], (row (text "motd")).getD [],
    (atoi ((row (text "creation_time")).getD [])).toInt32.toInt⟩

theorem positive_row (cid : row (text "cid") = some (unsigned clanid.toNat)) :
    matching [.positive (text "cid")] row = true ↔ clanid ≠ 0 := by
  have same : matching [.positive (text "cid")] row =
      ((row (text "cid")).any fun field => decide (0 < numeral field)) := by
    rw [matching, all_cons, all_nil, Bool.and_true]
    rfl
  rw [same, cid, any_some, numeral_unsigned, decide_eq_true_eq, Ne,
    ← UInt32.toNat_inj, UInt32.toNat_zero]
  omega

theorem members_selected (sql : Sql) (tables : Tables tab database clans) (clanid : UInt32) :
    (queryRes sql database (snprintf (selectMembers tab clanid))).isSome = true := by
  obtain ⟨members, found, known⟩ := tables.members
  have listed : ∀ column ∈ [text "uid", text "status", text "join_time"],
    members.knows column = true := knows_listed known (by decide)
  have conditioned : members.knows (text "cid") = true := known _ (by decide)
  rw [query_res_executed sql (statement_read select_members_fits
    (select_members_tokens sql.backslashes tab clanid) rfl)
    (execute_select found listed (by simpa [conditionColumn] using conditioned))]
  rfl

theorem load_row (sql : Sql) (tab : TabPrefix) (database : Database)
    {rest : List (List (Option Text))} {result : Int}
    (others : loadRows sql tab database rest = some (loaded, result))
    {cid short name motd creationTime : Text} (nonzero : atoi cid ≠ 0)
    (selected : (queryRes sql database (snprintf (selectMembers tab (atoi cid)))).isSome = true) :
    loadRows sql tab database
      ([some cid, some short, some name, some motd, some creationTime] :: rest) =
      some (⟨atoi cid, atoi short, name, motd, (atoi creationTime).toInt32.toInt⟩ :: loaded,
        result) := by
  have read : readRow [some cid, some short, some name, some motd, some creationTime] =
      .clan ⟨atoi cid, atoi short, name, motd, (atoi creationTime).toInt32.toInt⟩ :=
    if_neg nonzero
  rw [loadRows, read]
  simp only [others, map_some, selected, if_true]

theorem load_rows (sql : Sql) (tables : Tables tab database clans) (rows : List Row)
    (shaped : ∀ row ∈ rows, ClanRow row)
    (positive : ∀ row ∈ rows, matching [.positive (text "cid")] row = true) :
    loadRows sql tab database
      (rows.map fun row => clanColumns.map fun column => row (fold column)) =
      some (rows.map loadedRow, 0) := by
  induction rows with
  | nil => rfl
  | cons row rest ih =>
    obtain ⟨⟨⟨clanid, cid⟩, filled⟩, shaped⟩ := forall_mem_cons.mp shaped
    obtain ⟨above, positive⟩ := forall_mem_cons.mp positive
    obtain ⟨short, shortSet⟩ := filled (text "short") (by decide)
    obtain ⟨name, nameSet⟩ := filled (text "name") (by decide)
    obtain ⟨motd, motdSet⟩ := filled (text "motd") (by decide)
    obtain ⟨creationTime, creationSet⟩ := filled (text "creation_time") (by decide)
    have shape : (clanColumns.map fun column => row (fold column)) =
        [some (unsigned clanid.toNat), some short, some name, some motd, some creationTime] := by
      rw [← cid, ← shortSet, ← nameSet, ← motdSet, ← creationSet]
      rfl
    have nonzero := (positive_row cid).mp above
    have answered := members_selected sql tables clanid
    rw [← atoi_unsigned clanid] at nonzero answered
    rw [map_cons, shape, load_row sql tab database (ih shaped positive) nonzero answered,
      map_cons, loadedRow, cid, shortSet, nameSet, motdSet, creationSet]
    rfl

theorem load_clans (sql : Sql) (tables : Tables tab database clans) :
    sqlLoadClans sql tab database =
      some ((clans.rows.filter (matching [.positive (text "cid")])).map loadedRow, 0) := by
  have known := tables.clanTable.columns
  have conditioned : clans.knows (text "cid") = true := known _ (by decide)
  rw [sqlLoadClans, query_res_executed sql (statement_read select_clans_fits
    (select_clans_tokens sql.backslashes tab) rfl)
    (execute_select tables.found known (by simpa [conditionColumn] using conditioned))]
  apply load_rows sql tables
  · exact fun row inside => tables.clanTable.rows row (mem_filter.mp inside).1
  · exact fun row inside => (mem_filter.mp inside).2

theorem clan_table_apart (tab : TabPrefix) : tab.clan ≠ tab.clanmember :=
  fun same => tables_apart tab (congrArg fold same)

def insertHead (tab : TabPrefix) (clan : Clan) : Text :=
  text "INSERT INTO " ++ (tab.clan ++
    (text " (cid, short, name, motd, creation_time) VALUES('" ++
      (unsigned clan.clanid.toNat ++ (text "', '" ++ (printedInt clan.tag ++ text "', '")))))

def updateHead (tab : TabPrefix) (clan : Clan) : Text :=
  text "UPDATE " ++ (tab.clan ++ (text " SET short='" ++ (printedInt clan.tag ++ text "', name='")))

set_option maxRecDepth 2000 in
theorem insert_head_scan (backslashes : Bool) (tab : TabPrefix) (clan : Clan) :
    scan backslashes .outside (insertHead tab clan) =
      (.literal [], (render (insertedClan tab clan)).take 20) := by
  apply Eq.trans (scan_chain rfl (scan_chain scan_clan (scan_chain rfl
    (scan_chain (scan_unsigned _) (scan_chain rfl (scan_chain (scan_signed _) rfl))))))
  rfl

theorem update_head_scan (backslashes : Bool) (tab : TabPrefix) (clan : Clan) :
    scan backslashes .outside (updateHead tab clan) =
      (.literal [], (render (updatedClan tab clan)).take 9) := by
  apply Eq.trans (scan_chain rfl (scan_chain scan_clan (scan_chain rfl
    (scan_chain (scan_signed _) rfl))))
  rfl

theorem head_read {head rest : Text} {before found : List Token}
    (scanned : scan backslashes .outside head = (.literal [], before))
    (read : tokens backslashes (head ++ rest) = some found) :
    ∃ later, tokensFrom backslashes (.literal []) rest = some later ∧ before ++ later = found := by
  rw [tokens, tokens_from_append, scanned] at read
  exact map_eq_some_iff.mp read

theorem inserted_name
    (complete : Complete backslashes tab clock clan (insertClan tab clan escMotd)) :
    ∀ byte ∈ clan.clanname, Literal backslashes byte := by
  obtain ⟨meant, written, read⟩ := complete
  have split : insertClan tab clan escMotd = insertHead tab clan ++ (clan.clanname ++
      apostrophe :: commaSign :: (text " '" ++ (escMotd ++ (text "', '" ++
        (printedTime clan.creationTime ++ text "')"))))) := by
    simp only [insertClan, insertHead, append_assoc]
    rfl
  rw [split] at read
  obtain ⟨later, rest, whole⟩ := head_read (insert_head_scan backslashes tab clan) read
  cases written with
  | insertClan =>
    have behind := append_cancel_left (whole.trans (take_append_drop 20 _).symm)
    exact literal_itself clan.clanname [] _ (rest.trans (congrArg some behind))
  | updateClan => exact absurd (cons.inj whole).1 (by decide)
  | insertMember own =>
    have table := (cons.inj (cons.inj (cons.inj whole).2).2).1
    exact absurd (Token.word.inj table) (clan_table_apart tab)
  | updateMember own => exact absurd (cons.inj whole).1 (by decide)

theorem updated_name
    (complete : Complete backslashes tab clock clan (updateClan tab clan escMotd)) :
    ∀ byte ∈ clan.clanname, Literal backslashes byte := by
  obtain ⟨meant, written, read⟩ := complete
  have split : updateClan tab clan escMotd = updateHead tab clan ++ (clan.clanname ++
      apostrophe :: commaSign :: (text " motd='" ++ (escMotd ++ (text "', creation_time='" ++
        (printedTime clan.creationTime ++ (text "' WHERE cid='" ++
          (unsigned clan.clanid.toNat ++ text "'"))))))) := by
    simp only [updateClan, updateHead, append_assoc]
    rfl
  rw [split] at read
  obtain ⟨later, rest, whole⟩ := head_read (update_head_scan backslashes tab clan) read
  cases written with
  | insertClan => exact absurd (cons.inj whole).1 (by decide)
  | updateClan =>
    have behind := append_cancel_left (whole.trans (take_append_drop 9 _).symm)
    exact literal_itself clan.clanname [] _ (rest.trans (congrArg some behind))
  | insertMember own => exact absurd (cons.inj whole).1 (by decide)
  | updateMember own =>
    have table := (cons.inj (cons.inj whole).2).1
    exact absurd (Token.word.inj table) (clan_table_apart tab)

theorem write_member_grows (query : Text) (old : query ∈ session.submitted) :
    query ∈ (writeMember sql tab clock clanid session member).1.submitted := by
  rw [writeMember]
  split
  · exact old
  split
  · exact old
  split
  · exact old
  · exact mem_append_left _ old

theorem write_members_grow (members : List Member) (query : Text)
    (old : query ∈ session.submitted) :
    query ∈ (writeMembers sql tab clock clanid session members).1.submitted := by
  induction members generalizing session with
  | nil => exact old
  | cons member rest ih =>
    rw [writeMembers]
    dsimp only
    split
    · exact ih (write_member_grows query old)
    · exact write_member_grows query old

theorem first_submitted (done : (if (submitted sql ⟨database, []⟩ query).2 < 0 then
        some ((submitted sql ⟨database, []⟩ query).1, -1)
      else some (writeMembers sql tab clock clanid (submitted sql ⟨database, []⟩ query).1
        clan.members)) = some (session, 0)) : snprintf query ∈ session.submitted := by
  split at done
  · cases done
  have same := congrArg Prod.fst (some.inj done)
  dsimp only at same
  rw [← same]
  exact write_members_grow clan.members _ (mem_singleton_self _)

theorem name_submitted (tables : Tables tab database clans)
    (name : clan.clanname.length ≤ clanNameMax) (motd : clan.clanMotd.length ≤ clanMotdMax)
    (done : sqlWriteClan sql tab clock database clan = some (session, 0))
    (complete : ∀ query ∈ session.submitted, Complete sql.backslashes tab clock clan query) :
    ∀ byte ∈ clan.clanname, Literal sql.backslashes byte := by
  have room : (sql.escape clan.clanMotd).length ≤ 2 * clanMotdMax :=
    (sql.escapes.length clan.clanMotd).trans (Nat.mul_le_mul_left 2 motd)
  rw [sqlWriteClan, counted_clan sql ⟨database, []⟩ tables] at done
  dsimp only at done
  rw [if_neg (by simp only [clanMotdMax] at room ⊢; omega)] at done
  have first := complete _ (first_submitted done)
  split at first
  · rw [snprintf_short (update_clan_fits name room)] at first
    exact updated_name first
  · rw [snprintf_short (insert_clan_fits name room)] at first
    exact inserted_name first

theorem int_of_word (value : UInt32) : value.toInt32.toInt = (value.toNat : Int).bmod (2 ^ 32) :=
  BitVec.toInt_eq_toNat_bmod value.toBitVec

theorem atoi_printed (tag : UInt32) : atoi (printedInt tag) = tag := by
  have read := integer_signed 10 tag.toInt32.toInt [] (Or.inr rfl) separated_nil
  rw [append_nil] at read
  have least := tag.toInt32.le_toInt
  have most := tag.toInt32.toInt_lt
  have cut : max (-2 ^ 63) (min tag.toInt32.toInt (2 ^ 63 - 1)) = tag.toInt32.toInt := by omega
  simp only [atoi, printedInt, read, map_some, getD_some, cut]
  apply UInt32.toNat_inj.mp
  have word := word_of_int tag.toInt32.toInt
  have small := tag.toNat_lt
  have back : (tag.toNat : Int).bmod (2 ^ 32) % 2 ^ 32 = tag.toNat % 2 ^ 32 := bmod_emod
  rw [int_of_word] at word ⊢
  omega

theorem printed_time_read (time : Int) :
    (atoi (printedTime time)).toInt32.toInt = time.bmod (2 ^ 32) := by
  rw [printedTime, atoi_unsigned, int_of_word, word_of_int]
  exact emod_bmod time (2 ^ 32)

theorem time_kept_iff (time : Int) :
    time.bmod (2 ^ 32) = time ↔ -2 ^ 31 ≤ time ∧ time < 2 ^ 31 := by
  constructor
  · intro same
    have least := le_bmod (x := time) (m := 2 ^ 32) (by decide)
    have most := bmod_lt (x := time) (m := 2 ^ 32) (by decide)
    omega
  · rintro ⟨least, most⟩
    exact bmod_eq_of_le (by omega) (by omega)

def loadedClan (clan : Clan) : Loaded :=
  ⟨clan.clanid, clan.tag, clan.clanname, clan.clanMotd, clan.creationTime⟩

theorem loaded_stored (stored : Stored clan row) (least : -2 ^ 31 ≤ clan.creationTime)
    (most : clan.creationTime < 2 ^ 31) : loadedRow row = loadedClan clan := by
  have time := (time_kept_iff clan.creationTime).mpr ⟨least, most⟩
  rw [loadedRow, stored.cid, stored.short, stored.name, stored.motd, stored.creationTime]
  simp only [getD_some, atoi_unsigned, atoi_printed, printed_time_read, time, loadedClan]

/-- Every statement that is submitted is whole, and the clan is read back as it was. -/
def ComesBack (sql : Sql) (tab : TabPrefix) (clock : Clock) (database : Database)
    (clan : Clan) : Prop :=
  ∃ session, sqlWriteClan sql tab clock database clan = some (session, 0) ∧
    (∀ query ∈ session.submitted, Complete sql.backslashes tab clock clan query) ∧
    ∃ loaded, sqlLoadClans sql tab session.database = some (loaded, 0) ∧ loadedClan clan ∈ loaded ∧
      ∀ found ∈ loaded, found.clanid = clan.clanid → found = loadedClan clan

theorem read_row_range {row : List (Option Text)} {clan : Loaded}
    (read : readRow row = .clan clan) :
    clan.clanid ≠ 0 ∧ -2 ^ 31 ≤ clan.creationTime ∧ clan.creationTime < 2 ^ 31 := by
  rw [readRow.eq_def] at read
  split at read
  · split at read
    · cases read
    next nonzero =>
      split at read
      · cases read
        exact ⟨nonzero, Int32.le_toInt _, Int32.toInt_lt _⟩
      · cases read
  · cases read

theorem loaded_range (sql : Sql) (tab : TabPrefix) (database : Database)
    (rows : List (List (Option Text))) {result : Int}
    (done : loadRows sql tab database rows = some (loaded, result)) :
    ∀ found ∈ loaded, found.clanid ≠ 0 ∧ -2 ^ 31 ≤ found.creationTime ∧
      found.creationTime < 2 ^ 31 := by
  induction rows generalizing loaded result with
  | nil =>
    cases done
    simp
  | cons row rest ih =>
    rw [loadRows] at done
    split at done
    · cases done
    · exact ih done
    · cases done
      simp
    next clan read =>
      obtain ⟨later, others, same⟩ := map_eq_some_iff.mp done
      split at same
      · cases same
        exact forall_mem_cons.mpr ⟨read_row_range read, ih others⟩
      · exact ih (others.trans (congrArg some same))

theorem load_range (sql : Sql) (tab : TabPrefix) (database : Database)
    (done : sqlLoadClans sql tab database = some (loaded, 0)) (inside : loadedClan clan ∈ loaded) :
    clan.clanid ≠ 0 ∧ -2 ^ 31 ≤ clan.creationTime ∧ clan.creationTime < 2 ^ 31 := by
  rw [sqlLoadClans] at done
  split at done
  · cases done
  · exact loaded_range sql tab database _ done _ inside

theorem held_loaded (sql : Sql) (tables : Tables tab database clans) (held : Held clan clans)
    (nonzero : clan.clanid ≠ 0) (least : -2 ^ 31 ≤ clan.creationTime)
    (most : clan.creationTime < 2 ^ 31) :
    ∃ loaded, sqlLoadClans sql tab database = some (loaded, 0) ∧ loadedClan clan ∈ loaded ∧
      ∀ found ∈ loaded, found.clanid = clan.clanid → found = loadedClan clan := by
  refine ⟨_, load_clans sql tables, ?_, ?_⟩
  · obtain ⟨row, inside, stored⟩ := held.stored
    rw [← loaded_stored stored least most]
    exact mem_map_of_mem (mem_filter.mpr
      ⟨inside, (positive_row stored.cid).mpr nonzero⟩)
  intro found inside same
  obtain ⟨row, chosen, rfl⟩ := mem_map.mp inside
  have old := (mem_filter.mp chosen).1
  obtain ⟨clanid, cid⟩ := (tables.clanTable.rows row old).1
  rw [loadedRow, cid, getD_some, atoi_unsigned] at same
  exact loaded_stored (held.own row old (decide_eq_true (same ▸ cid))) least most

/-- A clan is stored and read back as it was if and only if its name denotes itself in a literal,
its number is not 0 and its time of creation fits in 32 bits. -/
theorem clan_comes_back_iff (sql : Sql) (clock : Clock) (tables : Tables tab database clans)
    (name : clan.clanname.length ≤ clanNameMax) (motd : clan.clanMotd.length ≤ clanMotdMax)
    (nulFree : 0 ∉ clan.clanMotd) :
    ComesBack sql tab clock database clan ↔
      (∀ byte ∈ clan.clanname, Literal sql.backslashes byte) ∧ clan.clanid ≠ 0 ∧
        -2 ^ 31 ≤ clan.creationTime ∧ clan.creationTime < 2 ^ 31 := by
  constructor
  · rintro ⟨session, done, complete, loaded, read, inside, _⟩
    exact ⟨name_submitted tables name motd done complete,
      load_range sql tab session.database read inside⟩
  · rintro ⟨plain, nonzero, least, most⟩
    obtain ⟨session, after, done, complete, later, held⟩ :=
      write_clan_held sql clock tables name motd nulFree plain
    exact ⟨session, done, complete, held_loaded sql later held nonzero least most⟩

end Engine

/-- The tables of `sql_DB_layout.conf` with the start `pvpgn_`. -/
def pvpgnTab : TabPrefix where
  name := text "pvpgn_"
  word := List.all_eq_true.mp rfl
  short := by decide

def freshTables : Database := fun name =>
  if name = fold pvpgnTab.clan then some ⟨clanColumns, []⟩
  else if name = fold pvpgnTab.clanmember then some ⟨memberColumns, []⟩
  else none

theorem fresh_tables : Tables pvpgnTab freshTables ⟨clanColumns, []⟩ where
  found := rfl
  clanTable := ⟨by decide, fun row never => absurd never not_mem_nil⟩
  members := ⟨⟨memberColumns, []⟩, rfl, fun column => by revert column; decide⟩

def newerClock : Clock := ⟨1700000000, 168⟩

def clanOf (name : Text) : Clan :=
  ⟨1, 0x4F6B61, name, text "Don't feed", 1600000000, [⟨7, clanNew, 1600000000, true, true⟩]⟩

theorem okapi_comes_back :
    ComesBack standardSql pvpgnTab newerClock freshTables (clanOf (text "Okapi")) :=
  (clan_comes_back_iff standardSql newerClock fresh_tables (by decide) (by decide)
    (by decide)).mpr ⟨forall_iff_forall_mem.mp (by decide), by decide, by decide, by decide⟩

/-- The quote of the name ends its literal. -/
theorem bobs_clan_lost :
    ¬ ComesBack standardSql pvpgnTab newerClock freshTables (clanOf (text "Bob's")) := by
  rintro ⟨session, done, complete, _⟩
  have plain := name_submitted fresh_tables (by decide) (by decide) done complete
  exact (plain apostrophe (by decide)).1 rfl

end Pvpgn.ClanStatements
