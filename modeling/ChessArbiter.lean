import ChessArbiter.Colour
import ChessArbiter.Square
import ChessArbiter.Bitboard
import ChessArbiter.Geometry
import ChessArbiter.Text
import ChessArbiter.Piece
import ChessArbiter.MoveError
import ChessArbiter.Move
import ChessArbiter.Journal
import ChessArbiter.Board
import ChessArbiter.Table
import ChessArbiter.Diagram
import ChessArbiter.Castling
import ChessArbiter.Game
import ChessArbiter.Attack
import ChessArbiter.Fen
import ChessArbiter.Snapshot
import ChessArbiter.Arbiter
import ChessArbiter.Legality
import ChessArbiter.Execution
import ChessArbiter.Notation
import ChessArbiter.Resolution
import ChessArbiter.PgnToken
import ChessArbiter.PgnGame
import ChessArbiter.WorkerPool
import ChessArbiter.Replay
import ChessArbiter.Percent
import ChessArbiter.Options
import ChessArbiter.ByteText
import ChessArbiter.Folder
import ChessArbiter.Batch
import ChessArbiter.Window
import ChessArbiter.Launch
import ChessArbiter.Main
import ChessArbiter.Proofs.Rays
import ChessArbiter.Proofs.Strikes
import ChessArbiter.Proofs.Occupancy
import ChessArbiter.Proofs.Handling
import ChessArbiter.Proofs.Coherence
import ChessArbiter.Proofs.Consistency
import ChessArbiter.Proofs.Assessment
import ChessArbiter.Proofs.Movement
import ChessArbiter.Proofs.Attacks
import ChessArbiter.Proofs.Castles
import ChessArbiter.Proofs.Turns
import ChessArbiter.Proofs.Requests
import ChessArbiter.Proofs.Setups
import ChessArbiter.Proofs.Session
import ChessArbiter.Proofs.KingSafety
import ChessArbiter.Proofs.Rules
import ChessArbiter.Proofs.Pawns
import ChessArbiter.Proofs.Regularity
import ChessArbiter.Proofs.Abstraction
import ChessArbiter.Proofs.Refinement
import ChessArbiter.Proofs.Simulation
import ChessArbiter.Proofs.Rollback
import ChessArbiter.Proofs.Placement
import ChessArbiter.Proofs.Fields
import ChessArbiter.Proofs.Loading
import ChessArbiter.Proofs.PositionText
import ChessArbiter.Proofs.LoadedPlay
import ChessArbiter.Proofs.Resolving
import ChessArbiter.Proofs.Clicks
import ChessArbiter.Proofs.MoveLog
import ChessArbiter.Proofs.Records
import ChessArbiter.Proofs.Passing
import ChessArbiter.Proofs.Disambiguation
import ChessArbiter.Proofs.Spelling
import ChessArbiter.Proofs.Writing
import ChessArbiter.Proofs.Likeness
import ChessArbiter.Proofs.Reloading
import ChessArbiter.Proofs.Rights
import ChessArbiter.Proofs.Counters
import ChessArbiter.Proofs.Announcements
import ChessArbiter.Proofs.Mirror
import ChessArbiter.Proofs.Reflection
import ChessArbiter.Proofs.Symmetry
import ChessArbiter.Proofs.Material
import ChessArbiter.Proofs.GameText
import ChessArbiter.Proofs.Sidelines
import ChessArbiter.Proofs.Cutting
import ChessArbiter.Proofs.Sheets
import ChessArbiter.Proofs.Reports
import ChessArbiter.Proofs.Scheduling
import ChessArbiter.Proofs.Accounting
import ChessArbiter.Proofs.Promotions
import ChessArbiter.Proofs.Lookahead
import ChessArbiter.Proofs.Escapes
import ChessArbiter.Proofs.Objections
import ChessArbiter.Proofs.Grammar
import ChessArbiter.Proofs.Reordering
import ChessArbiter.Proofs.Matching
import ChessArbiter.Proofs.Brackets
import ChessArbiter.Proofs.Sight
import ChessArbiter.Proofs.Upkeep
