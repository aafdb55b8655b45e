import Pvpgn.ConnectionReap
import Pvpgn.RealmReload

/-!
Runs of the server in which connections come, log in, play and are destroyed. The lists of
connections are right after every call, unless a handler leaves a link that the end of a connection
follows later.
-/

namespace Pvpgn.ConnectionRuns
open Stdio ObjectList ObjectStore ConnectionArray ConnectionList ConnectionLinks ConnectionDestroy Option List Function
  ConnectionCalls ConnectionGames ConnectionReap
open ChannelMembers (ConnClass ConnState)
open RealmLinks (Entry)
open RealmReload (emptyServer newlistOf realmlistCreate)

inductive Event where
  | create (tsock usock : Int)
  | setState (c : Nat) (state : ConnState)
  | destroy (c : Nat)
  | reap
  | setClass (c : Nat) (cclass : ConnClass)
  | output (c : Nat) (outqueue : Bool)
  | setRealm (c : Nat) (realm : Option Nat)
  | login (c : Nat) (other : Option Nat)
  | authreply (realm c : Nat)
  | search (c : Nat) (queue : Int) (tc : List (Option Nat))
  | found (players : List Nat)
  | cancel (c : Nat)
  | route (c gamec : Nat)

abbrev There (server : Server) (c : Nat) : Prop := (server.base.conns.get c).isSome = true

/-- The calls that can be made: connections and realms were looked up before, and the handlers have
checked the classes and the states. The listening sockets leave room in the map. -/
def Made (server : Server) : Event → Prop
  | .create _ _ => server.base.conns.objects.length < server.connarray.entries.length
  | .setState c state =>
    There server c ∧ (state ≠ .connected ∨ (server.fields c).cclass ≠ .d2csBnetd)
  | .destroy c => There server c
  | .reap => True
  | .setClass c _ =>
    There server c ∧ ((server.fields c).cclass = .init ∨ (server.fields c).cclass = .ircinit)
  | .output c _ => There server c
  | .setRealm c realm => There server c ∧ (server.fields c).cclass = .bnet ∧
      ∀ new ∈ realm, (server.base.realms.get new).isSome = true
  | .login c other => There server c ∧ ∀ d ∈ other, There server d
  | .authreply realm c => (server.fields c).cclass = .d2csBnetd ∧
      stateOf server.base c = some .connected ∧ (server.base.realms.get realm).isSome = true
  | .search c _ tc => There server c ∧
      ∀ leader ∈ tc.head?.join, There server leader ∧ Plays (server.fields leader).cclass
  | .found players => players.length ≤ anongameMaxGamecount ∧ ∀ c ∈ players, There server c
  | .cancel c => There server c
  | .route c gamec => There server c ∧ (server.fields c).cclass = .w3route ∧
      stateOf server.base c = some .connected ∧ There server gamec ∧
      Plays (server.fields gamec).cclass ∧ (server.fields gamec).anongame.isSome = true

instance (server : Server) (event : Event) : Decidable (Made server event) :=
  match event with
  | .create _ _ => inferInstanceAs (Decidable (_ < _))
  | .setState _ _ => inferInstanceAs (Decidable (_ ∧ (_ ∨ _)))
  | .destroy _ => inferInstanceAs (Decidable (_ = _))
  | .reap => inferInstanceAs (Decidable True)
  | .setClass _ _ => inferInstanceAs (Decidable (_ ∧ (_ ∨ _)))
  | .output _ _ => inferInstanceAs (Decidable (_ = _))
  | .setRealm _ _ => inferInstanceAs (Decidable (_ ∧ _ ∧ ∀ _, _ → _))
  | .login _ _ => inferInstanceAs (Decidable (_ ∧ ∀ _, _ → _))
  | .authreply _ _ => inferInstanceAs (Decidable (_ ∧ _ ∧ _))
  | .search _ _ _ => inferInstanceAs (Decidable (_ ∧ ∀ _, _ → _))
  | .found _ => inferInstanceAs (Decidable (_ ∧ ∀ _, _ → _))
  | .cancel _ => inferInstanceAs (Decidable (_ = _))
  | .route _ _ => inferInstanceAs (Decidable (_ ∧ _ ∧ _ ∧ _ ∧ _ ∧ _))

def perform (env : Env) (server : Server) : Event → Option Server
  | .create tsock usock => connCreate server tsock usock
  | .setState c state => connSetState server c state
  | .destroy c => (connDestroy env server c).map Prod.fst
  | .reap => (connlistReap env server).map Prod.fst
  | .setClass c cclass => connEdit server c fun conn => { conn with cclass }
  | .output c outqueue => connEdit server c fun conn => { conn with outqueue }
  | .setRealm c realm => connSetRealm server c realm
  | .login c other => connSetAccount server c other
  | .authreply realm c => onD2csAuthreply server realm c
  | .search c queue tc => some (anongameSearch server c queue tc)
  | .found players => some (anongameSearchFound server players)
  | .cancel c => clientAnongameCancel env server c
  | .route c gamec => clientW3routeReq server c gamec

def step (env : Env) (server : Server) (event : Event) : Option Server :=
  if Made server event then perform env server event else some server

def run : Server → List (Env × Event) → Option Server
  | server, [] => some server
  | server, (env, event) :: rest => (step env server event).bind fun after => run after rest

/-- `maxcons` is an `int`. -/
def boot (maxcons : Nat) (realms : List Entry) : Server where
  base := ((realmlistCreate emptyServer (some realms)).map Prod.fst).getD emptyServer
  fields := fun _ => ⟨.init, false, none, none⟩
  infos := .empty
  connHead := []
  connarray := connarrayCreate maxcons

/-- Nothing that the end of a connection follows is left behind: who logs in is not to be destroyed
and is not logged out by it, the players of a match are distinct and in no match, the members of a
cancelled team are there without routes, a route connection has no other game connection, and no
connection is destroyed that leads another one's team. -/
def Safe (env : Env) (server : Server) : Event → Prop
  | .destroy c => Unled server c
  | .reap =>
    ReapsUnled env server.base.conns.objects.length server server.base.connDead.head?
  | .login c other => stateOf server.base c ≠ some .destroy ∧ other ≠ some c
  | .found players => players.Nodup ∧
      ∀ c ∈ players, ∃ a, (server.fields c).anongame = some a ∧ a.info = none
  | .cancel c => ∀ a member, (server.fields c).anongame = some a → some member ∈ a.tc →
      Live server member ∧ (server.fields member).routeconn = none
  | .route c gamec =>
    (server.fields c).routeconn = none ∨ (server.fields c).routeconn = some gamec
  | _ => True

inductive Clear : Server → List (Env × Event) → Prop where
  | nil (server : Server) : Clear server []
  | cons {server : Server} {env : Env} {event : Event} {rest : List (Env × Event)}
      (safe : Made server event → Safe env server event)
      (later : ∀ after, step env server event = some after → Clear after rest) :
      Clear server ((env, event) :: rest)

variable {front back : List (Env × Event)}

section Steps
variable {server : Server} {env : Env} {event : Event}

theorem there_live {c : Nat} : There server c ↔ Live server c := isSome_iff_exists

theorem perform_sound (sound : Sound server) (made : Made server event)
    (safe : Safe env server event) :
    ∃ after, perform env server event = some after ∧ Sound after := by
  cases event with
  | create tsock usock => exact create_sound sound tsock usock made
  | setState c state =>
    obtain ⟨base, ran, kept, -⟩ := set_state_sound sound (there_live.mp made.1) state made.2
    exact ⟨_, by rw [perform, connSetState, ran]; rfl, kept⟩
  | destroy c =>
    obtain ⟨after, more, ran, intact, listed, -⟩ :=
      conn_destroy_spec env sound.intact sound.listed (there_live.mp made) safe
    exact ⟨after, by rw [perform, ran]; rfl, intact, listed⟩
  | reap =>
    obtain ⟨last, visits, ran, kept, -⟩ := reap_spec sound safe
    exact ⟨last, by rw [perform, ran]; rfl, kept⟩
  | setClass c cclass => exact set_class_sound sound (there_live.mp made.1) cclass made.2
  | output c outqueue => exact output_sound sound (there_live.mp made) outqueue
  | setRealm c realm =>
    exact set_realm_sound sound (there_live.mp made.1) made.2.1 fun new same =>
      isSome_iff_exists.mp (made.2.2 new same)
  | login c other =>
    exact login_sound sound (there_live.mp made.1) (fun d same => there_live.mp (made.2 d same))
      safe.1 safe.2
  | authreply realm c =>
    obtain ⟨found, present⟩ := isSome_iff_exists.mp made.2.2
    exact authreply_sound sound made.1 made.2.1 present
  | search c queue tc =>
    refine ⟨_, rfl, search_sound sound queue fun leader first => ?_⟩
    obtain ⟨there, plays⟩ := made.2 leader (by rw [first]; rfl)
    exact ⟨there_live.mp there, plays⟩
  | found players =>
    exact ⟨_, rfl, found_sound sound ⟨safe.1, fun c member => there_live.mp (made.2 c member),
      safe.2⟩⟩
  | cancel c =>
    have members (d : Nat)
        (member : some d ∈ ((server.fields c).anongame.map Anongame.tc).getD []) :
        Live server d ∧ (server.fields d).routeconn = none := by
      cases game : (server.fields c).anongame with
      | none =>
        rw [game] at member
        cases member
      | some a =>
        rw [game] at member
        exact safe a d game member
    exact cancel_members_sound env _ server sound (fun d member => (members d member).1)
      fun d member => (members d member).2
  | route c gamec =>
    obtain ⟨there, follows, -, game, plays, -⟩ := made
    refine route_sound sound (there_live.mp there) (there_live.mp game) ?_ safe
    rintro rfl
    exact plays.2.2.1 follows

theorem step_sound (sound : Sound server) (safe : Made server event → Safe env server event) :
    ∃ after, step env server event = some after ∧ Sound after := by
  rw [step]
  split
  · rename_i made
    exact perform_sound sound made (safe made)
  · exact ⟨server, rfl, sound⟩

theorem run_sound {events : List (Env × Event)} (sound : Sound server)
    (clear : Clear server events) : ∃ after, run server events = some after ∧ Sound after := by
  induction clear with
  | nil server => exact ⟨server, rfl, sound⟩
  | cons safe _ ih =>
    obtain ⟨middle, stepped, kept⟩ := step_sound sound safe
    obtain ⟨after, ran, still⟩ := ih middle stepped kept
    refine ⟨after, ?_, still⟩
    rw [run, stepped]
    exact ran

theorem clear_split (clear : Clear server (front ++ back)) :
    Clear server front ∧ ∀ after, run server front = some after → Clear after back := by
  induction front generalizing server with
  | nil =>
    refine ⟨.nil server, ?_⟩
    rintro after ⟨⟩
    exact clear
  | cons event rest ih =>
    cases clear with
    | cons safe later =>
      refine ⟨.cons safe fun after stepped => (ih (later after stepped)).1, ?_⟩
      intro after ran
      obtain ⟨middle, stepped, ran⟩ := bind_eq_some_iff.mp ran
      exact (ih (later middle stepped)).2 after ran

end Steps

section Boot
variable {maxcons : Nat} {realms : List Entry}

theorem boot_base : (boot maxcons realms).base = { RealmReload.loaded emptyServer realms with
    realmlistHead := some (newlistOf emptyServer realms) } := by
  rw [boot, RealmReload.create_spec]
  rfl

theorem boot_empty (c : Nat) : (boot maxcons realms).base.conns.get c = none := by
  rw [boot_base]
  rfl

theorem boot_sound (int : maxcons < 2 ^ 31) : Sound (boot maxcons realms) := by
  have nobody (c : Nat) : ¬Live (boot maxcons realms) c := by
    rintro ⟨conn, there⟩
    rw [boot_empty] at there
    cases there
  have unserved (realm c : Nat) : serverOf (boot maxcons realms).base realm ≠ some c := by
    intro serves
    obtain ⟨found, present, serves⟩ := bind_eq_some_iff.mp serves
    rw [boot_base] at present
    rcases RealmReload.loaded_cases present with never | ⟨-, entry, -, rfl⟩
    · cases never
    · cases serves
  have linked := (RealmReload.create_well_formed realms).linked
  rw [← boot_base] at linked
  have connDead : (boot maxcons realms).base.connDead = [] := by
    rw [boot_base]
    rfl
  refine ⟨⟨linked, ⟨?_, fun c _ => ?_⟩, fun realm c serves => absurd serves (unserved realm c),
    fun c realm _ here => ?_, ⟨fun c _ alive => absurd alive (nobody c),
      fun c alive => absurd alive (nobody c)⟩, fun c _ _ alive => absurd alive (nobody c),
    ⟨fun c _ _ alive => absurd alive (nobody c), ?_, ?_, ?_⟩⟩,
    ⟨nodup_nil, fun c => ?_, create_free maxcons, fun index c => ?_, ?_⟩⟩
  · rw [connDead]
    exact nodup_nil
  · rw [connDead, stateOf, boot_empty]
    simp
  · rw [RealmLinks.realmOf, boot_empty] at here
    cases here
  · intro address info i c present
    cases present
  · intro address info present
    cases present
  · intro address info present
    cases present
  · exact iff_of_false not_mem_nil (nobody c)
  · rw [numberOf, boot_empty, boot, connarrayCreate, getElem?_replicate]
    split <;> simp
  · rw [boot, connarrayCreate, length_replicate, UInt32.size]
    omega

theorem boot_runs (int : maxcons < 2 ^ 31) (clear : Clear (boot maxcons realms) (front ++ back)) :
    ∃ after, run (boot maxcons realms) front = some after ∧ Sound after ∧ Clear after back := by
  obtain ⟨first, later⟩ := clear_split clear
  obtain ⟨after, ran, kept⟩ := run_sound (boot_sound int) first
  exact ⟨after, ran, kept, later after ran⟩

end Boot

end Pvpgn.ConnectionRuns
