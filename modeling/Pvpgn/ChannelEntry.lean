import Pvpgn.ChannelCalls

/-!
What `conn_set_channel` does for a connection that is in no channel: it enters one, or it is turned
away.
-/

namespace Pvpgn.ChannelEntry
open Stdio ObjectList ObjectStore Channels ChannelMembers ChannelCalls Option Prod

structure Settled (server after : Server) (c : Nat) (place : Option Nat) : Prop where
  listed : addresses after.conns.objects = addresses server.conns.objects
  others : ∀ other, other ≠ c → seatOf after.conns other = seatOf server.conns other
  own : seatOf after.conns c = place

section Entry
variable {server after : Server} {c address : Nat} {conn : Connection} {channel : Channel}

theorem settled_of_moved {place : Option Nat} (alive : server.conns.get c = some conn)
    (moved : Retouched (server.conns.edit c (.inChannel place)) after.conns) :
    Settled server after c place := by
  have seats := seat_retouched moved
  rw [seat_edit alive] at seats
  refine ⟨moved.addresses.trans (Store.addresses_edit _ _ _), fun other apart => ?_, ?_⟩
  · rw [seats, Function.update_of_ne apart]
  · rw [seats, Function.update_self]

variable (env : Env) {channelname : Text}

variable {result : Int} {target : Option Nat}

end Entry

end Pvpgn.ChannelEntry
