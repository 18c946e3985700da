import ChessArbiter.Game

/-!
# Snapshots

A snapshot holds all of a game but its move log, of which it keeps the length, and the number of
open scopes. Going back to it forgets the men made since and strikes the moves logged since from the
log, but nobody who is gone from the roster comes back and no move struck before is logged again. It
is exact if the roster and the log have only grown (`Grown.restore`).
-/

namespace ChessArbiter

structure Snapshot where
  board : Board
  roster : Array Status
  live : Sides (List Man)
  captured : Sides (List Man)
  logged : Nat
  active : Colour
  ply : Int32
  turn : Int32
  halfmove : Int32
  enPassant : Option Square
deriving DecidableEq

/-- The roster on going back: men made since are forgotten, the others have their old status. -/
def Snapshot.rosterFrom (s : Snapshot) (now : Array Status) : Array Status :=
  (now.take s.roster.size).mapIdx fun i st => s.roster.getD i st

theorem Snapshot.rosterFrom_of_size_le {s : Snapshot} {now : Array Status}
    (h : s.roster.size ≤ now.size) : s.rosterFrom now = s.roster := by
  apply Array.ext
  · simp [rosterFrom, h]
  · intro i _ hi
    simp [rosterFrom, Array.getD, hi]

namespace Game

def snapshot (g : Game) : Snapshot :=
  { board := g.board, roster := g.roster, live := g.live, captured := g.captured
    logged := g.moves.length, active := g.active, ply := g.ply, turn := g.turn
    halfmove := g.halfmove, enPassant := g.enPassant }

def restore (g : Game) (s : Snapshot) : Game :=
  { board := s.board, roster := s.rosterFrom g.roster, live := s.live, captured := s.captured
    moves := g.moves.take s.logged, active := s.active, ply := s.ply, turn := s.turn
    halfmove := s.halfmove, enPassant := s.enPassant, depth := g.depth }

/-- No move has been struck from the log and no man from the roster. -/
structure Grown (o g : Game) : Prop where
  log : o.moves <+: g.moves
  men : o.roster.size ≤ g.roster.size

variable {o g : Game}

theorem Grown.refl (g : Game) : g.Grown g := ⟨List.prefix_rfl, Nat.le_refl _⟩

theorem Grown.trans {g' : Game} (h : o.Grown g) (h' : g.Grown g') : o.Grown g' :=
  ⟨h.log.trans h'.log, Nat.le_trans h.men h'.men⟩

theorem toTable_restore {s : Snapshot} (h : s.roster.size ≤ g.roster.size) :
    (g.restore s).toTable = { board := s.board, roster := s.roster } := by
  simp only [restore, Snapshot.rosterFrom_of_size_le h]

theorem Grown.restore (h : o.Grown g) : g.restore o.snapshot = { o with depth := g.depth } := by
  obtain ⟨later, hlater⟩ := h.log
  have hroster : o.snapshot.rosterFrom g.roster = o.roster :=
    Snapshot.rosterFrom_of_size_le h.men
  simp only [Game.restore, hroster]
  simp only [snapshot, ← hlater, List.take_left]

end Game

end ChessArbiter
