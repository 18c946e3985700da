/-!
# Squares of the board

A square is a file and a rank, both counted from zero, so every `Square` is on the board.
Squares are numbered rank by rank from a1 (0) to h8 (63); `index` and `ofIndex` are inverse to
each other. An `Offset` is a difference of squares, and `tryOffset` either lands on the board or
gives nothing.
-/

namespace ChessArbiter

/-- The one instance behind every literal file or rank. -/
instance neZero_eight : @NeZero Nat Zero.ofOfNat0 8 := ⟨by decide⟩

structure Square where
  file : Fin 8
  rank : Fin 8
deriving DecidableEq

structure Offset where
  files : Int
  ranks : Int
deriving DecidableEq

namespace Square

def index (s : Square) : Fin 64 := ⟨s.rank.val * 8 + s.file.val, by omega⟩

def ofIndex (i : Fin 64) : Square := ⟨⟨i.val % 8, by omega⟩, ⟨i.val / 8, by omega⟩⟩

@[simp] theorem ofIndex_index (s : Square) : ofIndex s.index = s := by
  obtain ⟨f, r⟩ := s
  simp only [ofIndex, index, mk.injEq, Fin.ext_iff]
  omega

@[simp] theorem index_ofIndex (i : Fin 64) : (ofIndex i).index = i := by
  simp only [ofIndex, index, Fin.ext_iff]
  omega

theorem index_inj {s t : Square} : s.index = t.index ↔ s = t :=
  ⟨fun h => by rw [← ofIndex_index s, h, ofIndex_index], congrArg _⟩

def all : List Square := (List.finRange 64).map ofIndex

@[simp] theorem mem_all (s : Square) : s ∈ all :=
  List.mem_map.2 ⟨s.index, List.mem_finRange _, ofIndex_index s⟩

def ofRank (rank : Fin 8) : List Square := (List.finRange 8).map (⟨·, rank⟩)

def fileLetter (s : Square) : Char := Char.ofNat ('a'.toNat + s.file.val)

def rankDigit (s : Square) : Char := Char.ofNat ('1'.toNat + s.rank.val)

def name (s : Square) : String := String.ofList [s.fileLetter, s.rankDigit]

def ofCoords? (file rank : Int) : Option Square :=
  if h : (0 ≤ file ∧ file < 8) ∧ 0 ≤ rank ∧ rank < 8 then
    some ⟨⟨file.toNat, by omega⟩, ⟨rank.toNat, by omega⟩⟩
  else none

/-- Reads a file letter of either case and a rank digit. -/
def ofChars? (file rank : Char) : Option Square :=
  ofCoords? (file.toLower.toNat - 'a'.toNat) (rank.toNat - '1'.toNat)

/-- The step that leads from `t` to `s`. -/
def sub (s t : Square) : Offset :=
  ⟨(s.file.val : Int) - t.file.val, (s.rank.val : Int) - t.rank.val⟩

instance : HSub Square Square Offset := ⟨sub⟩

def tryOffset (s : Square) (d : Offset) : Option Square :=
  ofCoords? (s.file.val + d.files) (s.rank.val + d.ranks)

end Square

end ChessArbiter
