import Pvpgn.PacketQueue
import Pvpgn.BigIntCells
import Pvpgn.BigIntOrder
import Pvpgn.SessionKey
import Pvpgn.Unescape
import Pvpgn.PlainBuffers
import Pvpgn.TrackerRuns
import Pvpgn.TeamFile
import Pvpgn.PacketAppend
import Pvpgn.LadderFile
import Pvpgn.XpLevels
import Pvpgn.LadderRatings
import Pvpgn.WolPoints
import Pvpgn.FriendLoading
import Pvpgn.AttrLoadFailure
import Pvpgn.AccountCreation
import Pvpgn.AttrLayer
import Pvpgn.ReportCheck
import Pvpgn.ReportOutcome
import Pvpgn.AnongameLevels
import Pvpgn.GameNames
import Pvpgn.Timers
import Pvpgn.RealmRuns
import Pvpgn.RealmNames
import Pvpgn.ChannelReload
import Pvpgn.Topics
import Pvpgn.Mailbox
import Pvpgn.ClanStatements
import Pvpgn.AttrRuns
import Pvpgn.WolMatches
import Pvpgn.ConnectionRuns
import Pvpgn.AnongameOrder
import Pvpgn.AnongameSearch
import Pvpgn.AnongameResults
import Pvpgn.AnongameStats
import Pvpgn.ClanlistSave
import Pvpgn.TeamSearch
import Pvpgn.D2Checksum
import Pvpgn.CharsaveLocks
import Pvpgn.D2csLadder
import Pvpgn.CharacterNames
import Pvpgn.TgaRle
import Pvpgn.IrcPackets
import Pvpgn.IrcLine
import Pvpgn.MessageFormat
import Pvpgn.MessageQuota
import Pvpgn.AliasArgs
import Pvpgn.IpBanFile
import Pvpgn.StringJoin
import Pvpgn.RandomPair
import Pvpgn.AccountRows
import Pvpgn.DupeCheck
import Pvpgn.VersionEntries
import Pvpgn.GameInfo
import Pvpgn.AddressTranslation
