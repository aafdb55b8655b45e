import Pvpgn.ConnectionGames

/-!
The traversal that destroys the dead connections, whose list grows and shrinks under it.
-/

namespace Pvpgn.ConnectionReap
open ObjectList ObjectStore ConnectionList ConnectionLinks ConnectionDestroy ConnectionCalls
open List Option
open LinkedList (Cursor cursorBehind)
open ChannelMembers (ConnState)

/-- Each connection that the traversal destroys leads nobody's team then. -/
def ReapsUnled (env : Env) : Nat → Server → Option Nat → Prop
  | rounds + 1, server, some curr =>
    ((server.fields curr).outqueue = false → Unled server curr) ∧
      ∀ after cursor following, reapOne env server curr = some (after, cursor) →
        next after.base.connDead cursor = some following → ReapsUnled env rounds after following
  | _, _, _ => True

def spared (visits : List (Nat × Bool)) : List Nat :=
  (visits.filter fun visit => !visit.2).map Prod.fst

structure Reaped (front rest : List Nat) (server last : Server) (visits : List (Nat × Bool)) :
    Prop where
  once : (visits.map Prod.fst).Nodup
  all : ∃ more, visits.map Prod.fst = rest ++ more
  behind : ∀ visit ∈ visits, visit.1 ∉ front
  known : ∀ visit ∈ visits, Live server visit.1
  dead : last.base.connDead = front ++ spared visits
  destroyed : ∀ c, Live last c ↔ Live server c ∧ (c, true) ∉ visits

section Rounds
variable {env : Env} {server after last : Server} {curr : Nat} {front back : List Nat}
  {visits : List (Nat × Bool)}

theorem reaped_nothing (dead : server.base.connDead = front ++ []) :
    Reaped front [] server server [] :=
  ⟨nodup_nil, ⟨[], rfl⟩, by simp, by simp, dead, by simp⟩

theorem Reaped.left (later : Reaped (front ++ [curr]) back server last visits)
    (alive : Live server curr) (outside : curr ∉ front) :
    Reaped front (curr :: back) server last ((curr, false) :: visits) := by
  obtain ⟨more, all⟩ := later.all
  refine ⟨?_, ⟨more, by rw [map_cons, all, cons_append]⟩, ?_, ?_, ?_, fun c => ?_⟩
  · refine nodup_cons.mpr ⟨fun member => ?_, later.once⟩
    obtain ⟨visit, inside, same⟩ := List.mem_map.mp member
    exact later.behind visit inside (by simp [same])
  · intro visit member
    rcases mem_cons.mp member with rfl | inside
    · exact outside
    · exact fun early => later.behind visit inside (mem_append_left _ early)
  · intro visit member
    rcases mem_cons.mp member with rfl | inside
    · exact alive
    · exact later.known visit inside
  · rw [later.dead, spared, spared]
    simp
  · rw [later.destroyed]
    simp

theorem Reaped.gone {more : List Nat} (later : Reaped front (back ++ more) after last visits)
    (left : Live after = Others server curr) (alive : Live server curr) (outside : curr ∉ front) :
    Reaped front (curr :: back) server last ((curr, true) :: visits) := by
  obtain ⟨others, all⟩ := later.all
  have older {c : Nat} (there : Live after c) : Live server c ∧ c ≠ curr := by
    rw [left] at there
    exact there
  refine ⟨?_, ⟨more ++ others, ?_⟩, ?_, ?_, ?_, fun c => ?_⟩
  · refine nodup_cons.mpr ⟨fun member => ?_, later.once⟩
    obtain ⟨visit, inside, same⟩ := List.mem_map.mp member
    exact (older (later.known visit inside)).2 same
  · rw [map_cons, all, append_assoc, cons_append]
  · intro visit member
    rcases mem_cons.mp member with rfl | inside
    · exact outside
    · exact later.behind visit inside
  · intro visit member
    rcases mem_cons.mp member with rfl | inside
    · exact alive
    · exact (older (later.known visit inside)).1
  · rw [later.dead, spared, spared]
    simp
  · rw [later.destroyed, left, Others]
    simp [and_assoc]

theorem dead_live (sound : Sound server) (member : curr ∈ server.base.connDead) :
    Live server curr := by
  have state := (sound.intact.dead.member curr (by simp)).mp member
  obtain ⟨conn, there, -⟩ := map_eq_some_iff.mp state
  exact ⟨conn, there⟩

theorem destroy_step (env : Env) (sound : Sound server)
    (dead : server.base.connDead = front ++ curr :: back) (unled : Unled server curr) :
    ∃ after more cursor, connDestroy env server curr = some (after, cursor) ∧ Sound after ∧
      after.base.connDead = front ++ (back ++ more) ∧
      next after.base.connDead cursor = some (back ++ more).head? ∧
      Live after = Others server curr ∧ after.connHead = server.connHead.erase curr := by
  have member : curr ∈ server.base.connDead := by rw [dead]; simp
  obtain ⟨after, more, ran, intact, listed, destroyed⟩ :=
    conn_destroy_spec env sound.intact sound.listed (dead_live sound member) unled
  have distinct := sound.intact.dead.nodup
  rw [dead, nodup_middle] at distinct
  obtain ⟨outside, -⟩ := nodup_cons.mp distinct
  have early : curr ∉ front := fun inside => outside (mem_append_left _ inside)
  have list : after.base.connDead = front ++ (back ++ more) := by
    rw [destroyed.dead, dead, append_assoc, cons_append, erase_append_right _ early,
      erase_cons_head]
  have gone : curr ∉ front ++ (back ++ more) := by
    intro inside
    rw [← list] at inside
    have still := dead_live ⟨intact, listed⟩ inside
    rw [destroyed.live] at still
    exact still.2 rfl
  have rest := intact.dead.nodup
  rw [list] at rest
  have whole : (front ++ curr :: (back ++ more)).Nodup :=
    nodup_middle.mpr (nodup_cons.mpr ⟨gone, rest⟩)
  refine ⟨after, more, cursorBehind front, ?_, ⟨intact, listed⟩, list, ?_, destroyed.live,
    destroyed.head⟩
  · rw [ran, dead, append_assoc, cons_append, cursor_without whole]
  · rw [list]
    exact next_behind rest

theorem reap_round {rounds : Nat} {cursor : Cursor} {following : Option Nat}
    (one : reapOne env server curr = some (after, cursor))
    (moved : next after.base.connDead cursor = some following)
    (ran : reapWithin env rounds after following = some (last, visits)) :
    reapWithin env (rounds + 1) server (some curr) =
      some (last, (curr, !(server.fields curr).outqueue) :: visits) := by
  simp only [reapWithin, one, moved, ran, bind_eq_bind, bind_some]

theorem reap_within_spec (rounds : Nat) (server : Server) (front rest : List Nat)
    (sound : Sound server) (dead : server.base.connDead = front ++ rest)
    (enough : server.connHead.length ≤ rounds + front.length)
    (unled : ReapsUnled env rounds server rest.head?) :
    ∃ last visits, reapWithin env rounds server rest.head? = some (last, visits) ∧ Sound last ∧
      Reaped front rest server last visits := by
  induction rounds generalizing server front rest with
  | zero =>
    cases rest with
    | nil => exact ⟨server, [], rfl, sound, reaped_nothing dead⟩
    | cons curr back =>
      have inside : front ++ curr :: back ⊆ server.connHead := fun c member =>
        (sound.listed.member c).mpr (dead_live sound (dead ▸ member))
      have short := (dead ▸ sound.intact.dead.nodup).length_le_of_subset inside
      rw [length_append, length_cons] at short
      omega
  | succ rounds ih =>
    cases rest with
    | nil => exact ⟨server, [], rfl, sound, reaped_nothing dead⟩
    | cons curr back =>
      have member : curr ∈ server.base.connDead := by rw [dead]; simp
      have alive := dead_live sound member
      have distinct := sound.intact.dead.nodup
      rw [dead] at distinct
      have outside : curr ∉ front := fun inside =>
        (nodup_append.mp distinct).2.2 curr inside curr mem_cons_self rfl
      obtain ⟨leads, later⟩ := unled
      cases output : (server.fields curr).outqueue with
      | true =>
        have one : reapOne env server curr = some (server, .elem curr) := by
          rw [reapOne, conn_get_live alive, bind_eq_bind, bind_some, if_pos output]
        have moved : next server.base.connDead (.elem curr) = some back.head? := by
          rw [dead]
          exact next_elem distinct
        obtain ⟨last, visits, ran, kept, reaped⟩ := ih server (front ++ [curr]) back sound
          (by rw [dead, append_assoc, singleton_append])
          (by rw [length_append, length_singleton]; omega)
          (later server (.elem curr) back.head? one moved)
        refine ⟨last, (curr, false) :: visits, ?_, kept, reaped.left alive outside⟩
        rw [head?_cons, reap_round one moved ran, output, Bool.not_true]
      | false =>
        obtain ⟨after, more, cursor, ran, still, list, moved, left, head⟩ :=
          destroy_step env sound dead (leads output)
        have one : reapOne env server curr = some (after, cursor) := by
          rw [reapOne, conn_get_live alive, bind_eq_bind, bind_some, if_neg (by simp [output])]
          exact ran
        have fewer := length_erase_of_mem ((sound.listed.member curr).mpr alive)
        obtain ⟨last, visits, runs, kept, reaped⟩ := ih after front (back ++ more) still list
          (by rw [head]; omega) (later after cursor _ one moved)
        refine ⟨last, (curr, true) :: visits, ?_, kept, reaped.gone left alive outside⟩
        rw [head?_cons, reap_round one moved runs, output, Bool.not_false]

theorem reap_spec (sound : Sound server)
    (unled : ReapsUnled env server.base.conns.objects.length server server.base.connDead.head?) :
    ∃ last visits, connlistReap env server = some (last, visits) ∧ Sound last ∧
      Reaped [] server.base.connDead server last visits := by
  have inside : server.connHead ⊆ addresses server.base.conns.objects := fun c member =>
    (server.base.conns.get_listed c).mp ((sound.listed.member c).mp member)
  have short := sound.listed.nodup.length_le_of_subset inside
  rw [addresses, length_map] at short
  exact reap_within_spec _ server [] _ sound rfl short unled

end Rounds

end Pvpgn.ConnectionReap
